import LaunchManager.Configuration.PreprocessRefinement

/-!
# Which level a value of a component comes from

A component's value at a key path is its own, or that of the configuration's defaults, or the
built-in one. `preprocess_defaults` keeps this precedence for every path of
`component_properties` and `deployment_config`, apart from what it completes in a `file_state`
and removes for an unsupervised type, and the result of a component rests on nothing but its
own entry and the defaults.
-/

namespace LaunchManager

set_option autoImplicit false

open DictTree DictHeap

namespace Preprocess

variable {ts own config : Section} {k k' : String} {d : Section} {f : Section → Section}

/-! ### Sections of a merge -/

variable {a b globalDefaults : Section}

theorem sectionOf_merge (hb : (b.map Prod.fst).Nodup)
    (hk : isNotMerging k = false) (ha : a.lookup k = some (.dict d))
    (hdict : ∀ t, b.lookup k = some t → t.kind = .dict) : (merge isNotMerging a b).lookup k =
      some (.dict (merge isNotMerging (sectionOf a k) (sectionOf b k))) := by
  rw [lookup_merge hb, sectionOf_of_lookup ha, ha]
  cases ht : b.lookup k with
  | none => simp [sectionOf, ht, merge]
  | some t =>
    cases t with
    | leaf x => cases hdict _ ht
    | dict e => simp [sectionOf, ht, overlay_dict hk]

theorem kindAt_sectionOf (hk : ts.lookup k = some (.dict d)) (path : List String) :
    (Tree.dict d).kindAt path = (Tree.dict ts).kindAt (k :: path) := by
  rw [Tree.kindAt_dict_cons, hk]
  rfl

/-! ### The last steps -/

theorem kindAt_adjust_of_ne (hne : k' ≠ k) (path : List String) :
    (Tree.dict (adjust ts k f)).kindAt (k' :: path) = (Tree.dict ts).kindAt (k' :: path) := by
  rw [Tree.kindAt_dict_cons, lookup_adjust_of_ne hne, Tree.kindAt_dict_cons]

theorem lookup_adjust_self (hk : ts.lookup k = some (.dict d)) :
    (adjust ts k f).lookup k = some (.dict (f d)) := by
  rw [adjust_of_lookup hk, Assoc.lookup_set_self]

theorem kindAt_adjust_self (hk : ts.lookup k = some (.dict d)) (path : List String) :
    (Tree.dict (adjust ts k f)).kindAt (k :: path) = (Tree.dict (f d)).kindAt path := by
  rw [Tree.kindAt_dict_cons, lookup_adjust_self hk]
  rfl

/-- The default of a field of a `file_state`, by its path in a ready condition. -/
def fileStateDefault : List String → Option (Kind Scalar)
  | ["file_state", key] => (fileStateDefaults.lookup key).map .leaf
  | _ => none

theorem fileStateDefault_of_ne (hk : k ≠ "file_state") (path : List String) :
    fileStateDefault (k :: path) = none := by
  unfold fileStateDefault
  split
  · next heq => exact absurd (List.cons.inj heq).1 hk
  · rfl

theorem kindAt_completed {fs : Section} (hfs : (fs.map Prod.fst).Nodup) (key : String)
    (path : List String) :
    (Tree.dict (Assoc.update (fileStateDefaults.map fun e => (e.1, .leaf e.2)) fs)).kindAt
      (key :: path) =
        ((Tree.dict fs).kindAt (key :: path)).or
          (fileStateDefault ("file_state" :: key :: path)) := by
  rw [Tree.kindAt_dict_cons, Assoc.lookup_update hfs, Assoc.lookup_map, Tree.kindAt_dict_cons]
  cases fs.lookup key with
  | some t =>
    cases path with
    | nil => simp
    | cons k path => simp [fileStateDefault]
  | none =>
    cases path with
    | nil =>
      cases hlook : fileStateDefaults.lookup key <;> simp [fileStateDefault, hlook, Tree.kind]
    | cons k path => cases fileStateDefaults.lookup key <;> simp [fileStateDefault]

theorem kindAt_withFileState (hd : (Tree.dict ts).Distinct) (path : List String) :
    (Tree.dict (withFileState ts)).kindAt path =
      match (Tree.dict ts).kindAt ["file_state"] with
      | some .dict => ((Tree.dict ts).kindAt path).or (fileStateDefault path)
      | _ => (Tree.dict ts).kindAt path := by
  rw [Tree.kindAt_dict_singleton]
  cases hk : ts.lookup "file_state" with
  | none => simp [withFileState, adjust, hk]
  | some t =>
    cases t with
    | leaf x => simp [withFileState, adjust, hk, Tree.kind]
    | dict fs =>
      simp only [Option.map_some, Tree.kind]
      cases path with
      | nil => simp [Tree.kind]
      | cons k path =>
        by_cases hne : k = "file_state"
        · subst hne
          rw [withFileState, kindAt_adjust_self hk, ← kindAt_sectionOf hk]
          cases path with
          | nil => simp [Tree.kind]
          | cons key path =>
            exact kindAt_completed (hd.of_mem (Assoc.mem_of_lookup hk)).keys_nodup key path
        · rw [withFileState, kindAt_adjust_of_ne hne, fileStateDefault_of_ne hne, Option.or_none]

theorem kindAt_withSupervision (path : List String) : (Tree.dict (withSupervision ts)).kindAt path =
      if isSupervisedType ((Tree.dict ts).kindAt ["application_type"]) = false ∧
        path.head? = some "alive_supervision" then none
      else (Tree.dict ts).kindAt path := by
  rw [withSupervision, Tree.kindAt_dict_singleton]
  split
  · next hsup => simp [hsup]
  · next hsup =>
    cases path with
    | nil => simp [Tree.kind]
    | cons k path =>
      rw [Tree.kindAt_dict_cons, Assoc.lookup_erase, Tree.kindAt_dict_cons]
      by_cases hk : k = "alive_supervision"
      · simp [hk, hsup]
      · simp [hk]

/-- The `component_properties` of a component, by key path, from what the levels say: a
configured `file_state` is completed, and `alive_supervision` is removed for an unsupervised
type. -/
def propertyAt (value : List String → Option (Kind Scalar)) :
    List String → Option (Kind Scalar)
  | "ready_condition" :: path =>
    match value ["ready_condition", "file_state"] with
    | some .dict => (value ("ready_condition" :: path)).or (fileStateDefault path)
    | _ => value ("ready_condition" :: path)
  | "application_profile" :: "alive_supervision" :: path =>
    if isSupervisedType (value ["application_profile", "application_type"]) then
      value ("application_profile" :: "alive_supervision" :: path)
    else none
  | path => value path

theorem kindAt_finished (hd : (Tree.dict ts).Distinct)
    (hready : ∃ d, ts.lookup "ready_condition" = some (.dict d))
    (hprofile : ∃ d, ts.lookup "application_profile" = some (.dict d)) (path : List String) :
    (Tree.dict (finished ts)).kindAt path = propertyAt (Tree.dict ts).kindAt path := by
  obtain ⟨ready, hready⟩ := hready
  obtain ⟨profile, hprofile⟩ := hprofile
  have hprofile' : (adjust ts "ready_condition" withFileState).lookup "application_profile" =
      some (.dict profile) := by
    rw [lookup_adjust_of_ne (by decide), hprofile]
  rw [finished]
  unfold propertyAt
  split
  · next path =>
    rw [kindAt_adjust_of_ne (by decide), kindAt_adjust_self hready,
      kindAt_withFileState (hd.of_mem (Assoc.mem_of_lookup hready)), kindAt_sectionOf hready,
      kindAt_sectionOf hready]
  · next path =>
    rw [kindAt_adjust_self hprofile', kindAt_withSupervision, kindAt_sectionOf hprofile,
      kindAt_sectionOf hprofile]
    cases isSupervisedType ((Tree.dict ts).kindAt ["application_profile", "application_type"]) <;>
      simp
  · next hne₁ hne₂ =>
    cases path with
    | nil => simp [Tree.kind]
    | cons k path =>
      by_cases hk : k = "application_profile"
      · subst hk
        rw [kindAt_adjust_self hprofile', kindAt_withSupervision, kindAt_sectionOf hprofile,
          kindAt_sectionOf hprofile, if_neg]
        rintro ⟨-, hhead⟩
        obtain ⟨rest, rfl⟩ : ∃ rest, path = "alive_supervision" :: rest := by
          cases path with
          | nil => simp at hhead
          | cons key rest => exact ⟨rest, by simpa using hhead⟩
        exact hne₂ rest rfl
      · have hready' : k ≠ "ready_condition" := fun heq => hne₁ path (by rw [heq])
        rw [kindAt_adjust_of_ne hk, kindAt_adjust_of_ne hready']

/-! ### Configurations -/

def defaultsOf (config : Section) : Section := sectionOf config "defaults"

def levels (config own : Section) : List (Tree String Scalar) :=
  [.dict own, .dict (defaultsOf config), .dict scoreDefaults]

/-- A configuration: a JSON document whose sections, components and run targets are objects. -/
structure WellFormed (config : Section) : Prop where
  distinct : (Tree.dict config).Distinct
  sections : ∀ k ∈ ["defaults", "components", "run_targets", "alive_supervision", "watchdog",
    "fallback_run_target"], ∀ t, config.lookup k = some t → t.kind = .dict
  components : ∀ e ∈ componentsIn config, e.2.kind = .dict
  runTargets : ∀ e ∈ sectionOf config "run_targets", e.2.kind = .dict

/-- No `ready_recovery_action` where the script looks for one. -/
structure WithoutReadyRecoveryAction (config : Section) : Prop where
  defaults : (sectionOf (defaultsOf config) "deployment_config").lookup
    "ready_recovery_action" = none
  components : ∀ e ∈ componentsIn config,
    (sectionOf (entriesOf e.2) "deployment_config").lookup "ready_recovery_action" = none

/-- A key holds a dictionary at all levels that set it or at none. -/
structure ConsistentLevels (config : Section) : Prop where
  defaults : Consistent (.dict scoreDefaults) (.dict (defaultsOf config))
  components : ∀ e ∈ componentsIn config,
    Consistent (.dict scoreDefaults) e.2 ∧ Consistent (.dict (defaultsOf config)) e.2

theorem distinct_sectionOf {entries : Section} (hd : (Tree.dict entries).Distinct) (k : String) :
    (Tree.dict (sectionOf entries k)).Distinct := by
  rw [sectionOf]
  split
  · next d hlook => exact hd.of_mem (Assoc.mem_of_lookup hlook)
  · exact .dict (by simp) (by simp)

theorem consistent_sectionOf (hab : Consistent (.dict a) (.dict b))
    (ha : a.lookup k = some (.dict d)) :
    Consistent (.dict (sectionOf a k)) (.dict (sectionOf b k)) := by
  rw [sectionOf_of_lookup ha]
  unfold sectionOf
  split
  · next e he => exact hab.of_lookup ha he
  · intro path x y hx hy
    cases path with
    | nil =>
      cases hx
      cases hy
      rfl
    | cons key path => simp [Tree.atPath_dict_cons] at hy

structure Component (config own : Section) : Prop where
  config_distinct : (Tree.dict (defaultsOf config)).Distinct
  distinct : (Tree.dict own).Distinct
  defaults : Consistent (.dict scoreDefaults) (.dict (defaultsOf config))
  builtIn : Consistent (.dict scoreDefaults) (.dict own)
  configured : Consistent (.dict (defaultsOf config)) (.dict own)

namespace Component

theorem lookup_mergedDefaults (hdistinct : (Tree.dict (defaultsOf config)).Distinct)
    (hdefaults : Consistent (.dict scoreDefaults) (.dict (defaultsOf config)))
    (hk : isNotMerging k = false) (hd : scoreDefaults.lookup k = some (.dict d)) :
    (mergedDefaultsOf scoreDefaults config).lookup k = some (.dict
      (merge isNotMerging (sectionOf scoreDefaults k) (sectionOf (defaultsOf config) k))) :=
  sectionOf_merge hdistinct.keys_nodup hk hd fun _ ht =>
    (hdefaults.of_lookup hd ht).kind_eq_dict_iff.mp rfl

variable (hc : Component config own)
include hc

theorem isDict_of_lookup (hd : scoreDefaults.lookup k = some (.dict d)) {t : Tree String Scalar}
    (ht : own.lookup k = some t) : t.kind = .dict :=
  (hc.builtIn.of_lookup hd ht).kind_eq_dict_iff.mp rfl

theorem lookup_merge (hk : isNotMerging k = false) (hd : scoreDefaults.lookup k = some (.dict d)) :
    (merge isNotMerging (mergedDefaultsOf scoreDefaults config) own).lookup k =
      some (.dict (laidOver (mergedDefaultsOf scoreDefaults config) own k)) :=
  sectionOf_merge hc.distinct.keys_nodup hk
    (lookup_mergedDefaults hc.config_distinct hc.defaults hk hd) fun _ => hc.isDict_of_lookup hd

theorem kindAt_laidOver (hk : isNotMerging k = false)
    (hd : scoreDefaults.lookup k = some (.dict d)) (path : List String) :
    (Tree.dict (laidOver (mergedDefaultsOf scoreDefaults config) own k)).kindAt path =
      valueAt isNotMerging (levels config own) (k :: path) := by
  rw [kindAt_sectionOf (hc.lookup_merge hk hd)]
  exact kindAt_merge_merge hc.config_distinct hc.distinct hc.defaults hc.builtIn hc.configured
    (k :: path)

theorem lookup_laidOver (hk : isNotMerging k = false)
    (hd : scoreDefaults.lookup k = some (.dict d)) {e : Section}
    (he : d.lookup k' = some (.dict e)) :
    ∃ e', (laidOver (mergedDefaultsOf scoreDefaults config) own k).lookup k' =
      some (.dict e') := by
  have hmd := lookup_mergedDefaults hc.config_distinct hc.defaults hk hd
  have hconsistent : Consistent (.dict (mergedDefaultsOf scoreDefaults config)) (.dict own) :=
    Consistent.merge hc.config_distinct hc.defaults hc.builtIn hc.configured
  rw [← sectionOf_of_lookup hd] at he
  obtain ⟨e₁, he₁⟩ := (consistent_sectionOf hc.defaults hd).lookup_merge (w := isNotMerging)
    (distinct_sectionOf hc.config_distinct k).keys_nodup he
  rw [← sectionOf_of_lookup hmd] at he₁
  exact (consistent_sectionOf hconsistent hmd).lookup_merge
    (distinct_sectionOf hc.distinct k).keys_nodup he₁

theorem suitsDefaults : SuitsDefaults (mergedDefaultsOf scoreDefaults config) own where
  properties _ ht := hc.isDict_of_lookup rfl ht
  deployment _ ht := hc.isDict_of_lookup rfl ht
  ready := hc.lookup_laidOver (by decide) rfl rfl
  profile := hc.lookup_laidOver (by decide) rfl rfl

end Component

theorem WellFormed.component (hwf : WellFormed config) (hlevels : ConsistentLevels config)
    {name : String} (hname : (name, .dict own) ∈ componentsIn config) : Component config own where
  config_distinct := distinct_sectionOf hwf.distinct "defaults"
  distinct := (distinct_sectionOf hwf.distinct "components").of_mem hname
  defaults := hlevels.defaults
  builtIn := (hlevels.components _ hname).1
  configured := (hlevels.components _ hname).2

theorem suits_of_wellFormed (hwf : WellFormed config)
    (hmigrated : WithoutReadyRecoveryAction config) (hlevels : ConsistentLevels config) :
    Suits (mergedDefaultsOf scoreDefaults config) config := by
  have hmd : ∀ {k : String} {d : Section}, isNotMerging k = false →
      scoreDefaults.lookup k = some (.dict d) →
      ∃ d', (mergedDefaultsOf scoreDefaults config).lookup k = some (.dict d') :=
    fun hk hd => ⟨_, Component.lookup_mergedDefaults (distinct_sectionOf hwf.distinct "defaults")
      hlevels.defaults hk hd⟩
  refine ⟨hwf.sections, ⟨fun t ht => ?_, hmigrated.defaults⟩, ?_, hwf.runTargets,
    ⟨hmd (by decide) rfl, hmd (by decide) rfl⟩, ?_⟩
  · exact (hlevels.defaults.of_lookup (k := "deployment_config") rfl ht).kind_eq_dict_iff.mp rfl
  · rintro ⟨name, t⟩ he
    cases t with
    | leaf x => exact absurd (hwf.components _ he) nofun
    | dict own =>
      have hc := hwf.component hlevels he
      exact ⟨own, rfl, ⟨fun _ ht => hc.isDict_of_lookup rfl ht, hmigrated.components _ he⟩,
        hc.suitsDefaults⟩
  · simp only [List.mem_cons, List.not_mem_nil, or_false, forall_eq_or_imp, forall_eq]
    exact ⟨hmd (by decide) rfl, hmd (by decide) rfl, hmd (by decide) rfl⟩

theorem scoreDefaults_distinct : (Tree.dict scoreDefaults).Distinct :=
  Tree.distinct_of_distinctKeys _ (by decide +kernel)

/-! ### The result -/

/-- The tree that a run of the script from `h` leaves as its result. -/
def Yields (h : Heap String Scalar) (gd cfg : Value) (t : Tree String Scalar) : Prop :=
  ∃ result warnings h', preprocessDefaults gd cfg h = .ok ((result, warnings), h') ∧
    Holds h' result t

theorem lookup_components_preprocessed :
    (preprocessed globalDefaults config).lookup "components" = some (.dict
      (componentsOf (mergedDefaultsOf globalDefaults config) (componentsIn config))) := by
  have hfallback : ∀ md result : Section, (withFallbackRunTarget md config result).lookup
      "components" = result.lookup "components" := by
    intro md result
    rw [withFallbackRunTarget]
    split
    · rfl
    · exact Assoc.lookup_set_of_ne _ (by decide) _
  have hinitial : ∀ md result : Section, (withInitialRunTarget md config result).lookup
      "components" = result.lookup "components" := by
    intro md result
    rw [withInitialRunTarget]
    split
    · exact Assoc.lookup_set_of_ne _ (by decide) _
    · rfl
  rw [preprocessed, newConfigOf, hfallback, hinitial]
  rfl

theorem atPath_component (hd : (Tree.dict config).Distinct)
    {name : String} (hname : (componentsIn config).lookup name = some (.dict own)) :
    (Tree.dict (preprocessed globalDefaults config)).atPath ["components", name] =
      some (.dict (componentOf (mergedDefaultsOf globalDefaults config) own)) := by
  have hnodup : (((componentsIn config).map fun e => (e.1, Tree.dict
      (componentOf (mergedDefaultsOf globalDefaults config) (entriesOf e.2)))).map
        Prod.fst).Nodup := by
    rw [List.map_map]
    exact (distinct_sectionOf hd "components").keys_nodup
  rw [Tree.atPath_dict_cons, lookup_components_preprocessed, Option.bind_some,
    Tree.atPath_dict_cons, componentsOf, Assoc.lookup_update hnodup,
    Assoc.lookup_map _ fun t => Tree.dict (componentOf (mergedDefaultsOf globalDefaults config)
      (entriesOf t)), hname]
  rfl

theorem Yields.eq_preprocessed {h : Heap String Scalar} {gd cfg : Value}
    {t : Tree String Scalar} (hgd : Holds h gd (.dict scoreDefaults))
    (hcfg : Holds h cfg (.dict config))
    (hsuits : Suits (mergedDefaultsOf scoreDefaults config) config) (ht : Yields h gd cfg t) :
    t = .dict (preprocessed scoreDefaults config) := by
  obtain ⟨result', warnings', h'', hrun', _, -, howns'⟩ := ht
  obtain ⟨⟨result, warnings⟩, h', hrun, -, _, -, howns⟩ :=
    preprocessDefaults_returns hgd hcfg hsuits (hasProperties_of_returns hgd hcfg hsuits hrun')
  cases hrun.symm.trans hrun'
  exact howns'.unique howns

/-- Every key path of a component has its own value, else that of the defaults, else the built-in
one. The script goes through exactly if every component has `component_properties`. -/
theorem preprocessDefaults_precedence {h : Heap String Scalar} {gd cfg : Value}
    (hgd : Holds h gd (.dict scoreDefaults)) (hcfg : Holds h cfg (.dict config))
    (hwf : WellFormed config) (hmigrated : WithoutReadyRecoveryAction config)
    (hlevels : ConsistentLevels config) : HasProperties config ↔
    ∃ result warnings h' t, preprocessDefaults gd cfg h = .ok ((result, warnings), h') ∧
      Holds h' result t ∧ (∀ r < h.length, h'[r]? = h[r]?) ∧
      ∀ name own, (componentsIn config).lookup name = some (.dict own) →
        ∃ component, t.atPath ["components", name] = some component ∧
          (∀ path, component.kindAt ("component_properties" :: path) =
            propertyAt (fun path => valueAt isNotMerging (levels config own)
              ("component_properties" :: path)) path) ∧
          (∀ path, component.kindAt ("deployment_config" :: path) =
            valueAt isNotMerging (levels config own) ("deployment_config" :: path)) ∧
          ∀ (h₂ : Heap String Scalar) (gd₂ cfg₂ : Value) (config₂ : Section)
            (t₂ : Tree String Scalar), Holds h₂ gd₂ (.dict scoreDefaults) →
            Holds h₂ cfg₂ (.dict config₂) → WellFormed config₂ →
            WithoutReadyRecoveryAction config₂ → ConsistentLevels config₂ →
            defaultsOf config₂ = defaultsOf config →
            (componentsIn config₂).lookup name = some (.dict own) → Yields h₂ gd₂ cfg₂ t₂ →
            t₂.atPath ["components", name] = some component := by
  have hsuits := suits_of_wellFormed hwf hmigrated hlevels
  refine ⟨fun hprops => ?_, fun ⟨_, _, _, _, hrun, _⟩ =>
    hasProperties_of_returns hgd hcfg hsuits hrun⟩
  obtain ⟨⟨result, warnings⟩, h', hrun, hch, hholds⟩ :=
    preprocessDefaults_returns hgd hcfg hsuits hprops
  refine ⟨result, warnings, h', _, hrun, hholds,
    fun r hr => hch.kept r hr (Finset.notMem_empty r), ?_⟩
  intro name own hname
  have hmem := Assoc.mem_of_lookup hname
  have hc := hwf.component hlevels hmem
  have hown := hc.suitsDefaults
  refine ⟨_, atPath_component hwf.distinct hname, fun path => ?_, fun path => ?_, ?_⟩
  · have hdistinct : (Tree.dict (laidOver (mergedDefaultsOf scoreDefaults config) own
        "component_properties")).Distinct := by
      refine Tree.Distinct.merge (distinct_sectionOf ?_ _) _ (distinct_sectionOf hc.distinct _)
      exact Tree.Distinct.merge scoreDefaults_distinct _ hc.config_distinct
    have hvalue : (Tree.dict (laidOver (mergedDefaultsOf scoreDefaults config) own
        "component_properties")).kindAt = fun path => valueAt isNotMerging (levels config own)
          ("component_properties" :: path) :=
      funext fun path => hc.kindAt_laidOver (by decide) rfl path
    rw [← hvalue, ← kindAt_finished hdistinct hown.ready hown.profile]
    exact (kindAt_sectionOf (k := "component_properties") rfl path).symm
  · rw [← hc.kindAt_laidOver (by decide) rfl path]
    exact (kindAt_sectionOf (k := "deployment_config") rfl path).symm
  · intro h₂ gd₂ cfg₂ config₂ t₂ hgd₂ hcfg₂ hwf₂ hmigrated₂ hlevels₂ hdefaults hname₂ ht₂
    rw [ht₂.eq_preprocessed hgd₂ hcfg₂ (suits_of_wellFormed hwf₂ hmigrated₂ hlevels₂),
      atPath_component hwf₂.distinct hname₂, mergedDefaultsOf, mergedDefaultsOf]
    have hdefaults' : sectionOf config₂ "defaults" = sectionOf config "defaults" := hdefaults
    rw [hdefaults']

def loaded (defaults config : Tree String Scalar) : Value × Value × Heap String Scalar :=
  let (gd, h) := allocTree [] defaults
  let (cfg, h') := allocTree h config
  (gd, cfg, h')

theorem holds_loaded (defaults config : Tree String Scalar) :
    Holds (loaded defaults config).2.2 (loaded defaults config).1 defaults ∧
      Holds (loaded defaults config).2.2 (loaded defaults config).2.1 config := by
  have hdefaults := holds_allocTree [] defaults
  exact ⟨hdefaults.frame (changes_allocTree _ _), holds_allocTree _ _⟩

def isConfiguration (config : Section) : Bool :=
  (Tree.dict config).distinctKeys &&
    ["defaults", "components", "run_targets", "alive_supervision", "watchdog",
      "fallback_run_target"].all (fun k => (config.lookup k).all (·.kind = .dict)) &&
    (sectionOf config "run_targets").all (·.2.kind = .dict) &&
    ((sectionOf (defaultsOf config) "deployment_config").lookup "ready_recovery_action").isNone &&
    (Tree.dict scoreDefaults).agrees (.dict (defaultsOf config)) &&
    (componentsIn config).all fun e =>
      e.2.kind = .dict &&
      ((sectionOf (entriesOf e.2) "deployment_config").lookup "ready_recovery_action").isNone &&
      (Tree.dict scoreDefaults).agrees e.2 && (Tree.dict (defaultsOf config)).agrees e.2

theorem conditions_of_isConfiguration (h : isConfiguration config = true) :
    WellFormed config ∧ WithoutReadyRecoveryAction config ∧ ConsistentLevels config := by
  simp only [isConfiguration, Bool.and_eq_true, List.all_eq_true, decide_eq_true_eq,
    Option.all_eq_true, Option.isNone_iff_eq_none] at h
  obtain ⟨⟨⟨⟨⟨hdistinct, hsections⟩, htargets⟩, hmigrated⟩, hdefaults⟩, hcomponents⟩ := h
  refine ⟨⟨Tree.distinct_of_distinctKeys _ hdistinct, hsections,
    fun e he => (hcomponents e he).1.1.1, htargets⟩,
    ⟨hmigrated, fun e he => (hcomponents e he).1.1.2⟩,
    ⟨Tree.consistent_of_agrees _ _ hdefaults, fun e he => ⟨?_, ?_⟩⟩⟩
  · exact Tree.consistent_of_agrees _ _ (hcomponents e he).1.2
  · exact Tree.consistent_of_agrees _ _ (hcomponents e he).2

/-- Two components, one of an unsupervised type, with a ready condition from the defaults. -/
def nativeAndSupervised : Section :=
  [("schema_version", .leaf (.int 1)),
   ("defaults", .dict [("component_properties", .dict [("ready_condition", .dict
     [("file_state", .dict [("file_path", .leaf (.str "/tmp/ready"))])])])]),
   ("components", .dict
     [("native", .dict [("component_properties", .dict [("application_profile", .dict
        [("application_type", .leaf (.str "Native"))])])]),
      ("supervised", .dict [("component_properties", .dict [])])]),
   ("fallback_run_target", .dict [("depends_on", .leaf (.list []))])]

theorem preprocessDefaults_precedence_native :
    ∃ result warnings h' t, preprocessDefaults
        (loaded (.dict scoreDefaults) (.dict nativeAndSupervised)).1
        (loaded (.dict scoreDefaults) (.dict nativeAndSupervised)).2.1
        (loaded (.dict scoreDefaults) (.dict nativeAndSupervised)).2.2 =
          .ok ((result, warnings), h') ∧ Holds h' result t ∧
      ∃ component, t.atPath ["components", "native"] = some component ∧
        component.kindAt ["component_properties", "ready_condition", "file_state", "state"] =
          some (.leaf (.str "Exists")) ∧
        component.kindAt ["component_properties", "application_profile", "alive_supervision"] =
          none ∧
        component.kindAt ["deployment_config", "bin_dir"] = some (.leaf (.str "/opt")) := by
  obtain ⟨hgd, hcfg⟩ := holds_loaded (.dict scoreDefaults) (.dict nativeAndSupervised)
  obtain ⟨hwf, hmigrated, hlevels⟩ :=
    conditions_of_isConfiguration (show isConfiguration nativeAndSupervised = true by
      decide +kernel)
  have hprops : HasProperties nativeAndSupervised := by decide +kernel
  obtain ⟨result, warnings, h', t, hrun, hholds, -, hcomponents⟩ :=
    (preprocessDefaults_precedence hgd hcfg hwf hmigrated hlevels).mp hprops
  obtain ⟨component, hat, hproperties, hdeployment, -⟩ := hcomponents "native" _ rfl
  refine ⟨result, warnings, h', t, hrun, hholds, component, hat, ?_, ?_, ?_⟩
  · rw [hproperties]
    rfl
  · rw [hproperties]
    rfl
  · rw [hdeployment]
    rfl

def faultOf (gd cfg : Value) (h : Heap String Scalar) : Option (Fault String) :=
  match preprocessDefaults gd cfg h with
  | .ok _ => none
  | .error fault => some fault

def withoutProperties : Section :=
  [("schema_version", .leaf (.int 1)),
   ("components", .dict [("c1", .dict [("deployment_config", .dict [])])]),
   ("fallback_run_target", .dict [("depends_on", .leaf (.list []))])]

theorem preprocessDefaults_fails_without_properties :
    WellFormed withoutProperties ∧ WithoutReadyRecoveryAction withoutProperties ∧
      ConsistentLevels withoutProperties ∧
      Holds (loaded (.dict scoreDefaults) (.dict withoutProperties)).2.2
        (loaded (.dict scoreDefaults) (.dict withoutProperties)).1 (.dict scoreDefaults) ∧
      Holds (loaded (.dict scoreDefaults) (.dict withoutProperties)).2.2
        (loaded (.dict scoreDefaults) (.dict withoutProperties)).2.1 (.dict withoutProperties) ∧
      faultOf (loaded (.dict scoreDefaults) (.dict withoutProperties)).1
        (loaded (.dict scoreDefaults) (.dict withoutProperties)).2.1
        (loaded (.dict scoreDefaults) (.dict withoutProperties)).2.2 = some .noDict := by
  obtain ⟨hgd, hcfg⟩ := holds_loaded (.dict scoreDefaults) (.dict withoutProperties)
  obtain ⟨hwf, hmigrated, hlevels⟩ :=
    conditions_of_isConfiguration (show isConfiguration withoutProperties = true by
      decide +kernel)
  exact ⟨hwf, hmigrated, hlevels, hgd, hcfg, by decide +kernel⟩

end Preprocess

end LaunchManager
