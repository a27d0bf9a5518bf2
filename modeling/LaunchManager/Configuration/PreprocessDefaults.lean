import LaunchManager.Library.DictHeap

/-!
# The defaults of a configuration

`preprocess_defaults` of the configuration mapping fills in what a configuration leaves out.
The dictionaries are objects: `dict_merge` copies the one below and stores references into the
one above, and the completed `file_state` and the removed `alive_supervision` are updates of
objects the result may share with the configuration. The first part follows the script on the
heap; the second says what it computes on nested dictionaries.
-/

namespace LaunchManager

set_option autoImplicit false

open DictTree DictHeap

/-- A JSON value as it stands in a list, where the script does not look. -/
inductive Json where
  | null
  | bool (b : Bool)
  | int (n : Int)
  | str (s : String)
  | list (items : List Json)
  | object (members : List (String × Json))

/-- A value of the configuration that is no dictionary; `null` is also Python's `None`. -/
inductive Scalar where
  | null
  | bool (b : Bool)
  | int (n : Int)
  | str (s : String)
  | list (items : List Json)

namespace Preprocess

abbrev Section := Entries String Scalar
abbrev Value := Cell Scalar
abbrev Script := HeapM String Scalar

/-! ### The script -/

def notMergingDicts : List String := ["recovery_action", "ready_condition"]

def isNotMerging (key : String) : Bool := key ∈ notMergingDicts

def fileStateDefaults : List (String × Scalar) :=
  [("state", .str "Exists"), ("polling_interval_ms", .int 10)]

def isSupervised : Scalar → Bool
  | .str applicationType =>
    applicationType == "State_Manager" || applicationType == "Reporting_And_Supervised"
  | _ => false

def getOr (dict : Value) (key : String) (fallback : Scalar) : Script Value := do
  return (← getItem? dict key).getD (.leaf fallback)

def getOrEmpty (dict : Value) (key : String) : Script Value := do
  match ← getItem? dict key with
  | some value => pure value
  | none => alloc []

/-- Only a `file_state` that is a dictionary is completed. -/
def applyFileStateDefaults (readyCondition : Value) : Script Unit := do
  match ← getItem? readyCondition "file_state" with
  | some (.ref fileState) =>
    let configured ← load fileState
    let merged := Assoc.update (fileStateDefaults.map fun e => (e.1, .leaf e.2)) configured
    setItem readyCondition "file_state" (← alloc merged)
  | _ => pure ()

/-- What `report_warning` prints for a deprecated `ready_recovery_action`. -/
inductive Warning where
  | deprecated (context : String)
  | takesPrecedence (context newKey : String) (value : Value)
  | converted (context oldKey newKey : String) (value : Value)

def migrateKey (deploymentConfig restart : Value) (context oldKey newKey : String) :
    Script Warning := do
  match ← getItem? deploymentConfig newKey with
  | some value => pure (.takesPrecedence context newKey value)
  | none =>
    let value ← getOr restart oldKey (.int 0)
    setItem deploymentConfig newKey value
    pure (.converted context oldKey newKey value)

def migrateReadyRecoveryAction (deploymentConfig : Value) (context : String) :
    Script (List Warning) := do
  match ← getItem? deploymentConfig "ready_recovery_action" with
  | none => pure []
  | some rra =>
    eraseItem deploymentConfig "ready_recovery_action"
    let restart ← getOrEmpty rra "restart"
    let attempts ← migrateKey deploymentConfig restart context "number_of_attempts"
      "activation_retry_attempts"
    let delay ← migrateKey deploymentConfig restart context "delay_before_restart_ms"
      "activation_retry_delay_ms"
    pure [.deprecated context, attempts, delay]

/-- The migration of the `deployment_config` of the defaults or of a component, if it has one. -/
def migrateDeploymentConfig (owner : Value) (context : String) : Script (List Warning) := do
  match ← getItem? owner "deployment_config" with
  | none => pure []
  | some deploymentConfig => migrateReadyRecoveryAction deploymentConfig context

/-- One pass of the loop of `dict_merge_recursive`. Apart from two dictionaries under a key that
merges, every branch assigns the value itself, which for a dictionary is a reference. -/
def mergeEntry (dictMerge : Value → Value → Script Value) (dictA : Value)
    (entry : String × Value) : Script Unit := do
  match ← getItem? dictA entry.1, entry.2 with
  | some (.ref a), .ref b =>
    if isNotMerging entry.1 then setItem dictA entry.1 entry.2
    else setItem dictA entry.1 (← dictMerge (.ref a) (.ref b))
  | _, _ => setItem dictA entry.1 entry.2

def dictMergeRecursive (dictMerge : Value → Value → Script Value) (dictA dictB : Value) :
    Script Value := do
  (← items dictB).forM (mergeEntry dictMerge dictA)
  pure dictA

/-- `dict_merge` with at most `fuel` calls inside one another. -/
def dictMergeWith : Nat → Value → Value → Script Value
  | 0, _, _ => throw .tooDeep
  | fuel + 1, dictA, dictB => do
    dictMergeRecursive (dictMergeWith fuel) (← deepcopy dictA) dictB

def dictMerge (dictA dictB : Value) : Script Value := do
  dictMergeWith (← get).length dictA dictB

def removeAliveSupervision (applicationProfile : Value) : Script Unit := do
  match ← getOr applicationProfile "application_type" .null with
  | .leaf applicationType =>
    if isSupervised applicationType then pure ()
    else eraseItem applicationProfile "alive_supervision"
  | .ref _ => eraseItem applicationProfile "alive_supervision"

/-- The last steps for a component, which update what `dict_merge` has returned. -/
def finishProperties (componentProperties : Value) : Script Unit := do
  applyFileStateDefaults (← getOrEmpty componentProperties "ready_condition")
  removeAliveSupervision (← getItem componentProperties "application_profile")

/-- The component's own `component_properties` has no `{}` to fall back on, as its
`deployment_config` has. -/
def fillComponent (mergedDefaults component componentConfig : Value) : Script Unit := do
  setItem component "description" (← getOr componentConfig "description" (.str ""))
  setItem component "component_properties"
    (← dictMerge (← getItem mergedDefaults "component_properties")
      (← getOr componentConfig "component_properties" .null))
  setItem component "deployment_config"
    (← dictMerge (← getItem mergedDefaults "deployment_config")
      (← getOrEmpty componentConfig "deployment_config"))
  finishProperties (← getItem component "component_properties")

/-- The body of the loop over the components, with `new_config["components"]` at hand. -/
def preprocessComponent (mergedDefaults newComponents : Value) (name : String)
    (componentConfig : Value) : Script Unit := do
  let component ← alloc []
  setItem newComponents name component
  fillComponent mergedDefaults component componentConfig

def preprocessComponents (mergedDefaults config newConfig : Value) : Script Unit := do
  let newComponents ← alloc []
  setItem newConfig "components" newComponents
  (← items (← getOrEmpty config "components")).forM fun entry =>
    preprocessComponent mergedDefaults newComponents entry.1 entry.2

def preprocessRunTargets (mergedDefaults config newConfig : Value) : Script Unit := do
  let newRunTargets ← alloc []
  setItem newConfig "run_targets" newRunTargets
  (← items (← getOrEmpty config "run_targets")).forM fun entry => do
    setItem newRunTargets entry.1 (← dictMerge (← getItem mergedDefaults "run_target") entry.2)

def preprocessSection (key : String) (mergedDefaults config newConfig : Value) : Script Unit := do
  setItem newConfig key (← dictMerge (← getItem mergedDefaults key) (← getOrEmpty config key))

def preprocessInitialRunTarget (mergedDefaults config newConfig : Value) : Script Unit := do
  match ← getItem? config "initial_run_target" with
  | some value => setItem newConfig "initial_run_target" value
  | none =>
    match ← getItem? mergedDefaults "initial_run_target" with
    | some value => setItem newConfig "initial_run_target" value
    | none => pure ()

def preprocessFallbackRunTarget (mergedDefaults config newConfig : Value) : Script Unit := do
  match ← getItem? config "fallback_run_target" with
  | none => pure ()
  | some fallback =>
    let timeout ← getOr (← getItem mergedDefaults "run_target") "transition_timeout_ms" (.int 3000)
    let fallbackDefaults ← alloc [("description", .leaf (.str "")),
      ("depends_on", .leaf (.list [])), ("transition_timeout_ms", timeout)]
    setItem newConfig "fallback_run_target" (← dictMerge fallbackDefaults fallback)

def fillNewConfig (mergedDefaults config newConfig : Value) : Script Unit := do
  setItem newConfig "schema_version" (← getOr config "schema_version" .null)
  preprocessComponents mergedDefaults config newConfig
  preprocessRunTargets mergedDefaults config newConfig
  preprocessSection "alive_supervision" mergedDefaults config newConfig
  preprocessSection "watchdog" mergedDefaults config newConfig
  preprocessInitialRunTarget mergedDefaults config newConfig
  preprocessFallbackRunTarget mergedDefaults config newConfig

/-- The new configuration, with the warnings printed on the way. -/
def preprocessDefaults (globalDefaults config : Value) : Script (Value × List Warning) := do
  let config ← deepcopy config
  let ofDefaults ← migrateDeploymentConfig (← getOrEmpty config "defaults")
    "defaults.deployment_config"
  let ofComponents ← (← items (← getOrEmpty config "components")).mapM fun entry =>
    migrateDeploymentConfig entry.2 ("Component '" ++ entry.1 ++ "'")
  let mergedDefaults ← dictMerge globalDefaults (← getOrEmpty config "defaults")
  let newConfig ← alloc []
  fillNewConfig mergedDefaults config newConfig
  pure (newConfig, ofDefaults ++ ofComponents.flatten)

def recoveryToFallback : String × Tree String Scalar :=
  ("recovery_action", .dict [("switch_run_target",
    .dict [("run_target", .leaf (.str "fallback_run_target"))])])

def scoreDefaults : Section :=
  [("deployment_config", .dict
      [("ready_timeout_ms", .leaf (.int 500)),
       ("shutdown_timeout_ms", .leaf (.int 500)),
       ("environmental_variables", .dict []),
       ("bin_dir", .leaf (.str "/opt")),
       ("activation_retry_attempts", .leaf (.int 0)),
       ("activation_retry_delay_ms", .leaf (.int 0)),
       recoveryToFallback,
       ("sandbox", .dict
         [("uid", .leaf (.int 1000)),
          ("gid", .leaf (.int 1000)),
          ("supplementary_group_ids", .leaf (.list [])),
          ("security_policy", .leaf (.str "")),
          ("scheduling_policy", .leaf (.str "SCHED_OTHER")),
          ("scheduling_priority", .leaf (.int 0))])]),
   ("component_properties", .dict
      [("binary_name", .leaf (.str "")),
       ("application_profile", .dict
         [("application_type", .leaf (.str "Reporting_And_Supervised")),
          ("is_self_terminating", .leaf (.bool false)),
          ("alive_supervision", .dict
            [("reporting_cycle_ms", .leaf (.int 500)),
             ("failed_cycles_tolerance", .leaf (.int 2)),
             ("min_indications", .leaf (.int 1)),
             ("max_indications", .leaf (.int 3))])]),
       ("depends_on", .leaf (.list [])),
       ("process_arguments", .leaf (.list [])),
       ("ready_condition", .dict [("process_state", .leaf (.str "Running"))])]),
   ("run_target", .dict
      [("description", .leaf (.str "")),
       ("depends_on", .leaf (.list [])),
       ("transition_timeout_ms", .leaf (.int 3000)),
       recoveryToFallback]),
   ("initial_run_target", .leaf (.str "Startup")),
   ("alive_supervision", .dict [("evaluation_cycle_ms", .leaf (.int 500))]),
   ("watchdog", .dict [])]

/-! ### What it computes -/

def sectionOf (entries : Section) (key : String) : Section :=
  match entries.lookup key with
  | some (.dict d) => d
  | _ => []

def entriesOf : Tree String Scalar → Section
  | .dict entries => entries
  | .leaf _ => []

/-- The dictionary under a key, if there is one, put through `f`. -/
def adjust (entries : Section) (key : String) (f : Section → Section) : Section :=
  match entries.lookup key with
  | some (.dict d) => Assoc.set entries key (.dict (f d))
  | _ => entries

def withFileState (readyCondition : Section) : Section :=
  adjust readyCondition "file_state" fun fileState =>
    Assoc.update (fileStateDefaults.map fun e => (e.1, .leaf e.2)) fileState

def isSupervisedType : Option (Kind Scalar) → Bool
  | some (.leaf applicationType) => isSupervised applicationType
  | _ => false

/-- An application profile, without `alive_supervision` for an unsupervised type. -/
def withSupervision (profile : Section) : Section :=
  if isSupervisedType ((profile.lookup "application_type").map Tree.kind) then profile
  else Assoc.erase profile "alive_supervision"

def finished (properties : Section) : Section :=
  adjust (adjust properties "ready_condition" withFileState) "application_profile" withSupervision

def laidOver (defaults own : Section) (key : String) : Section :=
  merge isNotMerging (sectionOf defaults key) (sectionOf own key)

def componentOf (mergedDefaults own : Section) : Section :=
  [("description", (own.lookup "description").getD (.leaf (.str ""))),
   ("component_properties", .dict (finished (laidOver mergedDefaults own "component_properties"))),
   ("deployment_config", .dict (laidOver mergedDefaults own "deployment_config"))]

def componentsOf (mergedDefaults components : Section) : Section :=
  Assoc.update [] (components.map fun e =>
    (e.1, .dict (componentOf mergedDefaults (entriesOf e.2))))

def runTargetsOf (mergedDefaults runTargets : Section) : Section :=
  Assoc.update [] (runTargets.map fun e =>
    (e.1, .dict (merge isNotMerging (sectionOf mergedDefaults "run_target") (entriesOf e.2))))

def withInitialRunTarget (mergedDefaults config result : Section) : Section :=
  match (config.lookup "initial_run_target").or (mergedDefaults.lookup "initial_run_target") with
  | some value => Assoc.set result "initial_run_target" value
  | none => result

def withFallbackRunTarget (mergedDefaults config result : Section) : Section :=
  match config.lookup "fallback_run_target" with
  | none => result
  | some fallback =>
    let timeout := ((sectionOf mergedDefaults "run_target").lookup "transition_timeout_ms").getD
      (.leaf (.int 3000))
    Assoc.set result "fallback_run_target" (.dict (merge isNotMerging
      [("description", .leaf (.str "")), ("depends_on", .leaf (.list [])),
        ("transition_timeout_ms", timeout)] (entriesOf fallback)))

def newConfigOf (mergedDefaults config : Section) : Section :=
  let result : Section :=
    [("schema_version", (config.lookup "schema_version").getD (.leaf .null)),
     ("components", .dict (componentsOf mergedDefaults (sectionOf config "components"))),
     ("run_targets", .dict (runTargetsOf mergedDefaults (sectionOf config "run_targets"))),
     ("alive_supervision", .dict (laidOver mergedDefaults config "alive_supervision")),
     ("watchdog", .dict (laidOver mergedDefaults config "watchdog"))]
  withFallbackRunTarget mergedDefaults config (withInitialRunTarget mergedDefaults config result)

def mergedDefaultsOf (globalDefaults config : Section) : Section :=
  merge isNotMerging globalDefaults (sectionOf config "defaults")

def preprocessed (globalDefaults config : Section) : Section :=
  newConfigOf (mergedDefaultsOf globalDefaults config) config

end Preprocess

end LaunchManager
