import LaunchManager.Library.UnorderedMap
import Mathlib.Data.List.Dedup
import Mathlib.Data.List.Perm.Subperm
import Mathlib.Logic.Relation

/-!
# The check for cyclic dependencies

`check_cyclic_dependencies` of the configuration mapping. One call of
`get_process_dependencies` resolves a list of dependencies and, for each component
in it, also the components that this one depends on; it recurses two levels of
components at a time. The two lists of ancestors are shared by all calls: each
call appends to them and takes off again what it appended.

Names are of any type, so that the configuration's strings and their hashes are
both instances.
-/

namespace LaunchManager

open UnorderedMap List

set_option autoImplicit false

universe u

inductive ApplicationType where
  | native
  | reporting
  | reportingAndSupervised
  | stateManager
deriving DecidableEq, Repr

inductive ProcessStateCondition where
  | running
  | terminated
deriving DecidableEq, Repr

/-- The part of `component_properties` that the validation reads. An absent `depends_on` is an
empty one for every reader. -/
structure ComponentProperties (Name : Type u) where
  dependsOn : List Name := []
  processState : Option ProcessStateCondition := none
  fileState : Bool := false
  applicationType : Option ApplicationType := none

/-- A run target; `recoveryTarget` is `recovery_action.switch_run_target.run_target`. -/
structure RunTargetProperties (Name : Type u) where
  dependsOn : List Name := []
  transitionTimeoutMs : Nat := 3000
  recoveryTarget : Option Name := none

/-- A configuration with all defaults filled in. The fallback run target is given by its
`depends_on`. -/
structure Configuration (Name : Type u) where
  components : UnorderedMap Name (ComponentProperties Name)
  runTargets : UnorderedMap Name (RunTargetProperties Name)
  initialRunTarget : Name
  fallbackRunTarget : Option (List Name) := none

/-- The reasons for a `ValueError`; a path is the list of ancestors at that moment. -/
inductive DependencyError (Name : Type u) where
  | visitedComponent (component : Name) (path : List Name)
  | unknownComponent (component dependency : Name)
  | visitedDependency (component dependency : Name) (path : List Name)
  | unknownName (name : Name)
  | visitedRunTarget (runTarget : Name) (path : List Name)
deriving DecidableEq

namespace DependencyError

def formatDependencyPath (path : List String) (cycleTarget : String) : String :=
  String.intercalate " -> " (path ++ [cycleTarget])

def message : DependencyError String → String
  | visitedComponent component path =>
    "Cyclic dependency detected: component '" ++ component ++
      "' has already been visited.\n  Path: " ++ formatDependencyPath path component
  | unknownComponent component dependency =>
    "Component '" ++ component ++ "' depends on unknown component '" ++ dependency ++ "'."
  | visitedDependency component dependency path =>
    "Cyclic dependency detected: component '" ++ component ++
      "' depends on already visited component '" ++ dependency ++ "'.\n  Path: " ++
      formatDependencyPath path dependency
  | unknownName name =>
    "Run Target depends on unknown Run Target or component '" ++ name ++ "'."
  | visitedRunTarget runTarget path =>
    "Cyclic dependency detected: Run Target '" ++ runTarget ++
      "' has already been visited.\n  Path: " ++ formatDependencyPath path runTarget

end DependencyError

/-- The lists `ancestors_run_targets` and `ancestors_components`. -/
structure Ancestors (Name : Type u) where
  runTargets : List Name := []
  components : List Name := []

namespace Ancestors
variable {Name : Type u}

def pushComponent (a : Ancestors Name) (name : Name) : Ancestors Name :=
  { a with components := a.components ++ [name] }

def popComponent (a : Ancestors Name) : Ancestors Name :=
  { a with components := a.components.dropLast }

def pushRunTarget (a : Ancestors Name) (name : Name) : Ancestors Name :=
  { a with runTargets := a.runTargets ++ [name] }

def popRunTarget (a : Ancestors Name) : Ancestors Name :=
  { a with runTargets := a.runTargets.dropLast }

@[simp] theorem popComponent_pushComponent (a : Ancestors Name) (name : Name) :
    (a.pushComponent name).popComponent = a := by simp [pushComponent, popComponent]

@[simp] theorem popRunTarget_pushRunTarget (a : Ancestors Name) (name : Name) :
    (a.pushRunTarget name).popRunTarget = a := by simp [pushRunTarget, popRunTarget]

end Ancestors

/-- How a call ends. Running out of fuel is an outcome of the model only. -/
inductive Resolution (Name : Type u) where
  | outOfFuel
  | raised (error : DependencyError Name)
  | returned (out : List Name) (ancestors : Ancestors Name)

namespace Resolution
variable {Name : Type u}

def andThen (r : Resolution Name) (next : List Name → Ancestors Name → Resolution Name) :
    Resolution Name :=
  match r with
  | outOfFuel => outOfFuel
  | raised error => raised error
  | returned out a => next out a

end Resolution

/-- A loop over names that collects what its body returns. -/
def resolveEach {Name : Type u} (body : Name → Ancestors Name → Resolution Name) :
    List Name → Ancestors Name → Resolution Name
  | [], a => .returned [] a
  | name :: names, a => (body name a).andThen fun out a =>
    (resolveEach body names a).andThen fun more a => .returned (out ++ more) a

namespace Resolution
variable {Name : Type u} {body : Name → Ancestors Name → Resolution Name}
variable {names : List Name} {a : Ancestors Name}

def Restores (call : Ancestors Name → Resolution Name) : Prop :=
  ∀ {a a' : Ancestors Name} {out : List Name}, call a = .returned out a' → a' = a

variable {r bad : Resolution Name} {next : List Name → Ancestors Name → Resolution Name}
variable {a' : Ancestors Name}

theorem andThen_returned {out : List Name} (h : r.andThen next = .returned out a') :
    ∃ out₁ a₁, r = .returned out₁ a₁ ∧ next out₁ a₁ = .returned out a' := by
  cases r with
  | outOfFuel | raised => cases h
  | returned out₁ a₁ => exact ⟨out₁, a₁, rfl, h⟩

theorem restores_resolveEach (hbody : ∀ name, Restores (body name)) (names : List Name) :
    Restores (resolveEach body names) := by
  induction names with
  | nil =>
    intro a a' out h
    cases h
    rfl
  | cons name names ih =>
    intro a a' out h
    obtain ⟨out₁, a₁, hone, h⟩ := andThen_returned h
    obtain ⟨out₂, a₂, hmore, h⟩ := andThen_returned h
    cases h
    rw [ih hmore, hbody name hone]

theorem returned_of_resolveEach (hbody : ∀ name, Restores (body name)) {out : List Name}
    (h : resolveEach body names a = .returned out a') :
    ∀ name ∈ names, ∃ out', body name a = .returned out' a := by
  induction names generalizing a out a' with
  | nil => simp
  | cons name names ih =>
    obtain ⟨out₁, a₁, hone, h⟩ := andThen_returned h
    obtain ⟨out₂, a₂, hmore, -⟩ := andThen_returned h
    obtain rfl := hbody name hone
    intro n hn
    rcases mem_cons.mp hn with rfl | hn
    · exact ⟨out₁, hone⟩
    · exact ih hmore n hn

theorem resolveEach_ne (hbody : ∀ name, Restores (body name))
    (hbad : ∀ out a', bad ≠ .returned out a') (h : ∀ name ∈ names, body name a ≠ bad) :
    resolveEach body names a ≠ bad := by
  induction names with
  | nil => exact fun heq => hbad _ _ heq.symm
  | cons name names ih =>
    have hone := h name mem_cons_self
    have hmore := ih fun n hn => h n (mem_cons_of_mem name hn)
    intro heq
    rw [resolveEach] at heq
    cases hb : body name a with
    | outOfFuel | raised e =>
      rw [hb] at heq hone
      exact hone heq
    | returned out₁ a₁ =>
      obtain rfl := hbody name hb
      rw [hb] at heq
      simp only [Resolution.andThen] at heq
      split at heq
      · exact hmore (by rw [← heq]; assumption)
      · exact hmore (by rw [← heq]; assumption)
      · exact hbad _ _ heq.symm

theorem andThen_ne (hr : r ≠ bad) (hnext : ∀ out a, next out a ≠ bad) : r.andThen next ≠ bad := by
  cases r with
  | outOfFuel | raised e => exact hr
  | returned out a => exact hnext out a

end Resolution

namespace Configuration
variable {Name : Type u}

structure Simple (config : Configuration Name) (a : Ancestors Name) : Prop where
  components : a.components.Nodup
  runTargets : a.runTargets.Nodup
  components_subset : a.components ⊆ config.components.keys
  runTargets_subset : a.runTargets ⊆ config.runTargets.keys

section Simple
variable {config : Configuration Name} {a : Ancestors Name} {name : Name}

theorem Simple.length_le (h : config.Simple a) : a.components.length + a.runTargets.length ≤
      config.components.size + config.runTargets.size := by
  have hc := (h.components.subperm h.components_subset).length_le
  have hr := (h.runTargets.subperm h.runTargets_subset).length_le
  rw [keys_length] at hc hr
  omega

theorem nodup_concat {names : List Name} (h : names.Nodup) (hname : name ∉ names) :
    (names ++ [name]).Nodup := by
  rw [← concat_eq_append]
  exact List.Nodup.concat hname h

theorem Simple.pushComponent (h : config.Simple a) (hkey : name ∈ config.components.keys)
    (hfresh : name ∉ a.components) : config.Simple (a.pushComponent name) where
  components := nodup_concat h.components hfresh
  runTargets := h.runTargets
  components_subset := append_subset.mpr ⟨h.components_subset, by simpa using hkey⟩
  runTargets_subset := h.runTargets_subset

theorem Simple.pushRunTarget (h : config.Simple a) (hkey : name ∈ config.runTargets.keys)
    (hfresh : name ∉ a.runTargets) : config.Simple (a.pushRunTarget name) where
  components := h.components
  runTargets := nodup_concat h.runTargets hfresh
  components_subset := h.components_subset
  runTargets_subset := append_subset.mpr ⟨h.runTargets_subset, by simpa using hkey⟩

end Simple

variable [DecidableEq Name]

section Resolve
variable (config : Configuration Name)
variable (recurse : List Name → Ancestors Name → Resolution Name)

/-- The body of the inner loop: `dep` is a dependency of the component `name`. -/
def resolveComponentDependency (name dep : Name) (a : Ancestors Name) : Resolution Name :=
  match config.components.find? dep with
  | none => .raised (.unknownComponent name dep)
  | some properties =>
    if dep ∈ a.components then .raised (.visitedDependency name dep a.components)
    else (recurse properties.dependsOn (a.pushComponent dep)).andThen fun out a =>
      .returned (dep :: out) a.popComponent

def resolveDependency (name : Name) (a : Ancestors Name) : Resolution Name :=
  match config.components.find? name with
  | some properties =>
    if name ∈ a.components then .raised (.visitedComponent name a.components)
    else (resolveEach (config.resolveComponentDependency recurse name) properties.dependsOn
      (a.pushComponent name)).andThen fun out a => .returned (name :: out) a.popComponent
  | none => match config.runTargets.find? name with
    | none => .raised (.unknownName name)
    | some properties =>
      if name ∈ a.runTargets then .raised (.visitedRunTarget name a.runTargets)
      else (recurse properties.dependsOn (a.pushRunTarget name)).andThen fun out a =>
        .returned out a.popRunTarget

end Resolve

/-- `list(set(out))` has no order to speak of. -/
def getProcessDependencies (config : Configuration Name) :
    Nat → List Name → Ancestors Name → Resolution Name
  | 0, _, _ => .outOfFuel
  | fuel + 1, dependsOn, a =>
    (resolveEach (config.resolveDependency (config.getProcessDependencies fuel)) dependsOn
      a).andThen fun out a => .returned out.dedup a

/-- The lists that the check resolves, each with new lists of ancestors. -/
def roots (config : Configuration Name) : List (List Name) :=
  config.runTargets.entries.map (·.2.dependsOn) ++ config.fallbackRunTarget.toList

def checkRoots (config : Configuration Name) (fuel : Nat) : List (List Name) → Resolution Name
  | [] => .returned [] {}
  | root :: more => (config.getProcessDependencies fuel root {}).andThen fun _ _ =>
    config.checkRoots fuel more

def checkCyclicDependencies (config : Configuration Name) (fuel : Nat) : Resolution Name :=
  config.checkRoots fuel config.roots

open Resolution

/-! ## Reachable names -/

/-- What a name depends on; a name of a component is not taken for a run target. -/
def dependsOn (config : Configuration Name) (name : Name) : List Name :=
  match config.components.find? name with
  | some properties => properties.dependsOn
  | none => match config.runTargets.find? name with
    | some properties => properties.dependsOn
    | none => []

def Edge (config : Configuration Name) (a b : Name) : Prop := b ∈ config.dependsOn a

def FromRoot (config : Configuration Name) (name : Name) : Prop :=
  (∃ r ∈ config.runTargets.keys, Relation.ReflTransGen config.Edge r name) ∨
    ∃ root ∈ config.fallbackRunTarget, ∃ d ∈ root, Relation.ReflTransGen config.Edge d name

def Known (config : Configuration Name) (name : Name) : Prop :=
  name ∈ config.components.keys ∨ name ∈ config.runTargets.keys

/-- A name with something wrong about it: it is unknown, it is a component that depends on
something else than a component, or it is on a cycle. -/
def Faulty (config : Configuration Name) (name : Name) : Prop :=
  ¬ config.Known name ∨
    (name ∈ config.components.keys ∧ ∃ d ∈ config.dependsOn name, d ∉ config.components.keys) ∨
    Relation.TransGen config.Edge name name

/-- The names that a call of `get_process_dependencies` finds in its list: the dependencies of a
run target, and those of the second of two components in a row. -/
inductive Listed (config : Configuration Name) : Name → Prop where
  | root {names : List Name} {name : Name} (hroot : names ∈ config.roots) (hname : name ∈ names) :
      Listed config name
  | runTarget {r name : Name} (hlisted : Listed config r) (hr : r ∈ config.runTargets.keys)
      (hname : name ∈ config.dependsOn r) : Listed config name
  | second {c d name : Name} (hlisted : Listed config c) (hc : c ∈ config.components.keys)
      (hd : d ∈ config.dependsOn c) (hkey : d ∈ config.components.keys)
      (hname : name ∈ config.dependsOn d) : Listed config name

/-- No component that a listed component depends on depends on a run target itself. -/
def SecondDependOnComponents (config : Configuration Name) : Prop :=
  ∀ c, config.Listed c → c ∈ config.components.keys → ∀ d ∈ config.dependsOn c,
    d ∈ config.components.keys → ∀ n ∈ config.dependsOn d, n ∉ config.runTargets.keys

/-- What the check notices: an unknown name, a cycle, and of the components that depend on something
else than a component those that are listed. -/
def Noticed (config : Configuration Name) (name : Name) : Prop :=
  ¬ config.Known name ∨
    (config.Listed name ∧ name ∈ config.components.keys ∧
      ∃ d ∈ config.dependsOn name, d ∉ config.components.keys) ∨
    Relation.TransGen config.Edge name name

def Disjoint (config : Configuration Name) : Prop :=
  ∀ name ∈ config.components.keys, name ∉ config.runTargets.keys

section Names
variable {config : Configuration Name} {name : Name}

theorem dependsOn_component {properties : ComponentProperties Name}
    (h : config.components.find? name = some properties) :
    config.dependsOn name = properties.dependsOn := by simp [dependsOn, h]

theorem dependsOn_runTarget {properties : RunTargetProperties Name}
    (hc : config.components.find? name = none)
    (h : config.runTargets.find? name = some properties) :
    config.dependsOn name = properties.dependsOn := by simp [dependsOn, hc, h]

theorem Noticed.faulty (h : config.Noticed name) : config.Faulty name :=
  h.imp_right (Or.imp_left And.right)

theorem FromRoot.edge (h : config.FromRoot name) {d : Name} (hd : config.Edge name d) :
    config.FromRoot d := by
  rcases h with ⟨r, hr, hpath⟩ | ⟨root, hroot, r, hr, hpath⟩
  · exact .inl ⟨r, hr, hpath.tail hd⟩
  · exact .inr ⟨root, hroot, r, hr, hpath.tail hd⟩

theorem fromRoot_of_mem_roots (hdisjoint : config.Disjoint) {root : List Name}
    (hroot : root ∈ config.roots) (hname : name ∈ root) : config.FromRoot name := by
  rcases mem_append.mp hroot with hroot | hroot
  · obtain ⟨⟨r, properties⟩, hmem, rfl⟩ := mem_map.mp hroot
    have hfind := UnorderedMap.find?_of_mem_entries hmem
    have hkey := mem_of_find? hfind
    have hnone : config.components.find? r = none := by
      rw [UnorderedMap.find?_eq_none_iff]
      exact fun hc => hdisjoint r hc hkey
    have hedge : config.Edge r name := by
      rw [Edge, dependsOn_runTarget hnone hfind]
      exact hname
    exact .inl ⟨r, hkey, .single hedge⟩
  · exact .inr ⟨root, by simpa using hroot, name, hname, .refl⟩

end Names

section Resolve
variable {config : Configuration Name}
variable {recurse : List Name → Ancestors Name → Resolution Name}

theorem restores_resolveComponentDependency (hrec : ∀ names, Restores (recurse names))
    (name dep : Name) : Restores (config.resolveComponentDependency recurse name dep) := by
  intro a a' out h
  unfold resolveComponentDependency at h
  split at h
  · cases h
  · split at h
    · cases h
    · obtain ⟨out₁, a₁, hone, h⟩ := andThen_returned h
      cases h
      rw [hrec _ hone, Ancestors.popComponent_pushComponent]

theorem restores_resolveDependency (hrec : ∀ names, Restores (recurse names)) (name : Name) :
    Restores (config.resolveDependency recurse name) := by
  intro a a' out h
  unfold resolveDependency at h
  split at h
  · split at h
    · cases h
    · obtain ⟨out₁, a₁, hone, h⟩ := andThen_returned h
      cases h
      have heq := restores_resolveEach
        (restores_resolveComponentDependency hrec name) _ hone
      rw [heq, Ancestors.popComponent_pushComponent]
  · split at h
    · cases h
    · split at h
      · cases h
      · obtain ⟨out₁, a₁, hone, h⟩ := andThen_returned h
        cases h
        rw [hrec _ hone, Ancestors.popRunTarget_pushRunTarget]

theorem restores_getProcessDependencies (config : Configuration Name) (fuel : Nat)
    (names : List Name) : Restores (config.getProcessDependencies fuel names) := by
  induction fuel generalizing names with
  | zero =>
    intro a a' out h
    cases h
  | succ fuel ih =>
    intro a a' out h
    obtain ⟨out₁, a₁, hone, h⟩ := andThen_returned h
    cases h
    exact restores_resolveEach (restores_resolveDependency ih) _ hone

end Resolve

/-! ## Termination -/

section Termination
variable {config : Configuration Name} {a : Ancestors Name}

/-- Every call has one ancestor more than its caller, so there is fuel for all of them. -/
theorem getProcessDependencies_ne_outOfFuel {fuel : Nat} {names : List Name} (h : config.Simple a)
    (hfuel : config.components.size + config.runTargets.size <
      fuel + (a.components.length + a.runTargets.length)) :
    config.getProcessDependencies fuel names a ≠ .outOfFuel := by
  induction fuel generalizing names a with
  | zero =>
    have hle := h.length_le
    omega
  | succ fuel ih =>
    have hrec := restores_getProcessDependencies config fuel
    have hinner : ∀ (b : Ancestors Name), config.Simple b →
        a.components.length + a.runTargets.length < b.components.length + b.runTargets.length →
        ∀ name dep, config.resolveComponentDependency (config.getProcessDependencies fuel)
          name dep b ≠ .outOfFuel := by
      intro b hb hlen name dep
      unfold resolveComponentDependency
      split
      · exact nofun
      · rename_i properties hfind
        split
        · exact nofun
        · rename_i hfresh
          refine andThen_ne (ih (hb.pushComponent (mem_of_find? hfind) hfresh) ?_)
            (fun _ _ => nofun)
          simp only [Ancestors.pushComponent, length_append, length_singleton]
          omega
    refine andThen_ne (resolveEach_ne (restores_resolveDependency hrec) (fun _ _ => nofun) ?_)
      (fun _ _ => nofun)
    intro name hname
    unfold resolveDependency
    split
    · rename_i properties hfind
      split
      · exact nofun
      · rename_i hfresh
        have hpush := h.pushComponent (mem_of_find? hfind) hfresh
        refine andThen_ne (resolveEach_ne (restores_resolveComponentDependency hrec name)
          (fun _ _ => nofun) fun dep _ => hinner _ hpush ?_ name dep) (fun _ _ => nofun)
        simp only [Ancestors.pushComponent, length_append, length_singleton]
        omega
    · split
      · exact nofun
      · rename_i properties hfind
        split
        · exact nofun
        · rename_i hfresh
          refine andThen_ne (ih (h.pushRunTarget (mem_of_find? hfind) hfresh) ?_)
            (fun _ _ => nofun)
          simp only [Ancestors.pushRunTarget, length_append, length_singleton]
          omega

end Termination

/-! ## What raises is noticed -/

/-- The ancestors are the names on a path from a root to the given one. -/
structure OnPath (config : Configuration Name) (a : Ancestors Name) (name : Name) : Prop where
  fromRoot : config.FromRoot name
  components : ∀ x ∈ a.components, Relation.TransGen config.Edge x name
  runTargets : ∀ x ∈ a.runTargets, Relation.TransGen config.Edge x name

section Sound
variable {config : Configuration Name} {a : Ancestors Name} {name d : Name}

theorem OnPath.pushComponent (h : config.OnPath a name) (hd : config.Edge name d) :
    config.OnPath (a.pushComponent name) d := by
  refine ⟨h.fromRoot.edge hd, fun x hx => ?_, fun x hx => (h.runTargets x hx).tail hd⟩
  rcases mem_append.mp hx with hx | hx
  · exact (h.components x hx).tail hd
  · rw [mem_singleton.mp hx]
    exact .single hd

theorem OnPath.pushRunTarget (h : config.OnPath a name) (hd : config.Edge name d) :
    config.OnPath (a.pushRunTarget name) d := by
  refine ⟨h.fromRoot.edge hd, fun x hx => (h.components x hx).tail hd, fun x hx => ?_⟩
  rcases mem_append.mp hx with hx | hx
  · exact (h.runTargets x hx).tail hd
  · rw [mem_singleton.mp hx]
    exact .single hd

theorem getProcessDependencies_ne_raised (hsound : ∀ n, config.FromRoot n → ¬ config.Noticed n)
    {fuel : Nat} {names : List Name} {e : DependencyError Name}
    (h : ∀ n ∈ names, config.OnPath a n) (hlisted : ∀ n ∈ names, config.Listed n) :
    config.getProcessDependencies fuel names a ≠ .raised e := by
  induction fuel generalizing names a with
  | zero => exact nofun
  | succ fuel ih =>
    have hrec := restores_getProcessDependencies config fuel
    have hinner : ∀ {b : Ancestors Name} {name dep : Name}, config.Listed name →
        name ∈ config.components.keys → config.FromRoot name → config.Edge name dep →
        config.OnPath b dep → config.resolveComponentDependency
          (config.getProcessDependencies fuel) name dep b ≠ .raised e := by
      intro b name dep hlist hkey hname hedge hdep
      unfold resolveComponentDependency
      split
      · rename_i hnone
        have hdepkey := (UnorderedMap.find?_eq_none_iff _ _).mp hnone
        exact absurd (.inr (.inl ⟨hlist, hkey, dep, hedge, hdepkey⟩)) (hsound name hname)
      · rename_i properties hfind
        split
        · rename_i hvisited
          exact absurd (.inr (.inr (hdep.components dep hvisited))) (hsound dep hdep.fromRoot)
        · have hbelow : ∀ n ∈ properties.dependsOn, config.Edge dep n := fun n hn => by
            rw [Edge, dependsOn_component hfind]
            exact hn
          exact andThen_ne (ih (fun n hn => hdep.pushComponent (hbelow n hn)) fun n hn =>
            .second hlist hkey hedge (mem_of_find? hfind) (hbelow n hn))
            (fun _ _ => nofun)
    refine andThen_ne (resolveEach_ne (restores_resolveDependency hrec) (fun _ _ => nofun) ?_)
      (fun _ _ => nofun)
    intro name hname
    have hpath := h name hname
    have hgood := hsound name hpath.fromRoot
    unfold resolveDependency
    split
    · rename_i properties hfind
      split
      · rename_i hvisited
        exact absurd (.inr (.inr (hpath.components name hvisited))) hgood
      · refine andThen_ne (resolveEach_ne (restores_resolveComponentDependency hrec name)
          (fun _ _ => nofun) fun dep hdep => ?_) (fun _ _ => nofun)
        have hedge : config.Edge name dep := by
          rw [Edge, dependsOn_component hfind]
          exact hdep
        exact hinner (hlisted name hname) (mem_of_find? hfind) hpath.fromRoot hedge
          (hpath.pushComponent hedge)
    · rename_i hnone
      split
      · rename_i hunknown
        rw [UnorderedMap.find?_eq_none_iff] at hnone hunknown
        exact absurd (.inl fun hknown => hknown.elim hnone hunknown) hgood
      · rename_i properties hfind
        split
        · rename_i hvisited
          exact absurd (.inr (.inr (hpath.runTargets name hvisited))) hgood
        · have hbelow : ∀ n ∈ properties.dependsOn, config.Edge name n := fun n hn => by
            rw [Edge, dependsOn_runTarget hnone hfind]
            exact hn
          exact andThen_ne (ih (fun n hn => hpath.pushRunTarget (hbelow n hn)) fun n hn =>
            .runTarget (hlisted name hname) (mem_of_find? hfind) (hbelow n hn))
            (fun _ _ => nofun)

end Sound

/-! ## What returns is in order -/

/-- A known name whose dependencies are all in order, down to names without any. -/
inductive InOrder (config : Configuration Name) : Name → Prop where
  | intro (name : Name) (known : config.Known name)
      (below : ∀ d ∈ config.dependsOn name, InOrder config d) : InOrder config name

section Complete
variable {config : Configuration Name} {a : Ancestors Name} {names : List Name} {name : Name}
  {fuel : Nat}

theorem InOrder.known (h : config.InOrder name) : config.Known name := by
  cases h with
  | intro _ known _ => exact known

theorem InOrder.edge (h : config.InOrder name) {d : Name} (hd : config.Edge name d) :
    config.InOrder d := by
  cases h with
  | intro _ _ below => exact below d hd

theorem InOrder.reach (h : config.InOrder name) {n : Name}
    (hpath : Relation.ReflTransGen config.Edge name n) : config.InOrder n := by
  induction hpath with
  | refl => exact h
  | tail _ hedge ih => exact ih.edge hedge

/-- A cycle through a name is one through its dependencies. -/
theorem InOrder.not_cyclic (h : config.InOrder name) :
    ¬ Relation.TransGen config.Edge name name := by
  induction h with
  | intro name _ _ ih =>
    intro hcycle
    obtain ⟨d, hedge, hback⟩ := Relation.TransGen.head'_iff.mp hcycle
    exact ih d hedge (Relation.TransGen.tail' hback hedge)

def Returns (config : Configuration Name) (fuel : Nat) (names : List Name)
    (a : Ancestors Name) : Prop :=
  ∃ out a', config.getProcessDependencies fuel names a = .returned out a'

/-- What a call that returns has found for each name of its list, and the calls it has made. -/
theorem returned_cases (h : config.Returns fuel names a) (hname : name ∈ names) :
    (name ∈ config.components.keys ∧ ∀ d ∈ config.dependsOn name, d ∈ config.components.keys ∧
      ∃ fuel' < fuel, ∃ b, config.Returns fuel' (config.dependsOn d) b) ∨
    (name ∉ config.components.keys ∧ name ∈ config.runTargets.keys ∧
      ∃ fuel' < fuel, ∃ b, config.Returns fuel' (config.dependsOn name) b) := by
  obtain ⟨out, a', h⟩ := h
  obtain _ | fuel := fuel
  · cases h
  have hrec := restores_getProcessDependencies config fuel
  obtain ⟨out₁, a₁, h, -⟩ := andThen_returned h
  obtain ⟨out₂, hone⟩ := returned_of_resolveEach (restores_resolveDependency hrec) h name hname
  unfold resolveDependency at hone
  split at hone
  · rename_i properties hfind
    split at hone
    · cases hone
    obtain ⟨out₃, a₃, hdeps, -⟩ := andThen_returned hone
    have hall := returned_of_resolveEach (restores_resolveComponentDependency hrec name) hdeps
    refine .inl ⟨mem_of_find? hfind, fun d hd => ?_⟩
    obtain ⟨out₄, hd₁⟩ := hall d (by rwa [dependsOn_component hfind] at hd)
    unfold resolveComponentDependency at hd₁
    split at hd₁
    · cases hd₁
    rename_i properties' hfind'
    split at hd₁
    · cases hd₁
    obtain ⟨out₅, a₅, hcall, -⟩ := andThen_returned hd₁
    rw [← dependsOn_component hfind'] at hcall
    exact ⟨mem_of_find? hfind', fuel, Nat.lt_succ_self fuel, _, _, _, hcall⟩
  · rename_i hnone
    split at hone
    · cases hone
    rename_i properties hfind
    split at hone
    · cases hone
    obtain ⟨out₃, a₃, hcall, -⟩ := andThen_returned hone
    rw [← dependsOn_runTarget hnone hfind] at hcall
    exact .inr ⟨(UnorderedMap.find?_eq_none_iff _ _).mp hnone, mem_of_find? hfind,
      fuel, Nat.lt_succ_self fuel, _, _, _, hcall⟩

/-- A return is a proof by recursion that the list is in order. -/
theorem inOrder_of_returned (h : config.Returns fuel names a) :
    ∀ n ∈ names, config.InOrder n := by
  induction fuel using Nat.strongRecOn generalizing names a with
  | _ fuel ih =>
    intro name hname
    rcases returned_cases h hname with ⟨hkey, hdeps⟩ | ⟨-, hkey, fuel', hlt, b, hbelow⟩
    · refine .intro name (.inl hkey) fun d hd => ?_
      obtain ⟨hdkey, fuel', hlt, b, hbelow⟩ := hdeps d hd
      exact .intro d (.inl hdkey) (ih fuel' hlt hbelow)
    · exact .intro name (.inr hkey) (ih fuel' hlt hbelow)

/-- Every listed name is in the list of some call, and all calls return. -/
theorem returned_of_listed (hdisjoint : config.Disjoint)
    (h : ∀ root ∈ config.roots, config.Returns fuel root {}) (hlisted : config.Listed name) :
    ∃ fuel names a, config.Returns fuel names a ∧ name ∈ names := by
  induction hlisted with
  | root hroot hname => exact ⟨_, _, _, h _ hroot, hname⟩
  | runTarget _ hr hname ih =>
    obtain ⟨fuel', names, a, hcall, hmem⟩ := ih
    rcases returned_cases hcall hmem with ⟨hc, -⟩ | ⟨-, -, _, -, _, hbelow⟩
    · exact absurd hr (hdisjoint _ hc)
    · exact ⟨_, _, _, hbelow, hname⟩
  | second _ hc hd _ hname ih =>
    obtain ⟨fuel', names, a, hcall, hmem⟩ := ih
    rcases returned_cases hcall hmem with ⟨-, hdeps⟩ | ⟨hnot, -⟩
    · obtain ⟨-, _, -, _, hbelow⟩ := hdeps _ hd
      exact ⟨_, _, _, hbelow, hname⟩
    · exact absurd hc hnot

theorem checkRoots_cases (config : Configuration Name) (fuel : Nat) (roots : List (List Name)) :
    (∃ root ∈ roots, ∃ r, config.getProcessDependencies fuel root {} = r ∧
      (∀ out a, r ≠ .returned out a) ∧ config.checkRoots fuel roots = r) ∨
    ((∀ root ∈ roots, ∃ out a, config.getProcessDependencies fuel root {} = .returned out a) ∧
      ∃ out a, config.checkRoots fuel roots = .returned out a) := by
  induction roots with
  | nil => exact .inr ⟨by simp, [], {}, rfl⟩
  | cons root roots ih =>
    cases hone : config.getProcessDependencies fuel root {} with
    | outOfFuel | raised e =>
      exact .inl ⟨root, mem_cons_self, _, hone, fun _ _ => nofun, by
        rw [checkRoots, hone, Resolution.andThen]⟩
    | returned out a =>
      have hrest : config.checkRoots fuel (root :: roots) = config.checkRoots fuel roots := by
        rw [checkRoots, hone, Resolution.andThen]
      rw [hrest]
      rcases ih with ⟨root', hroot', h⟩ | ⟨hall, h⟩
      · exact .inl ⟨root', mem_cons_of_mem root hroot', h⟩
      · refine .inr ⟨fun root' hroot' => ?_, h⟩
        rcases mem_cons.mp hroot' with rfl | hroot'
        · exact ⟨out, a, hone⟩
        · exact hall root' hroot'

theorem dependsOn_mem_roots (hdisjoint : config.Disjoint) (hr : name ∈ config.runTargets.keys) :
    config.dependsOn name ∈ config.roots := by
  have hnone := (UnorderedMap.find?_eq_none_iff _ _).mpr fun hc => hdisjoint name hc hr
  obtain ⟨⟨r, properties⟩, hmem, rfl⟩ := mem_map.mp hr
  rw [dependsOn_runTarget hnone (UnorderedMap.find?_of_mem_entries hmem)]
  exact mem_append.mpr (.inl (mem_map.mpr ⟨(r, properties), hmem, rfl⟩))

theorem inOrder_fromRoot (hdisjoint : config.Disjoint)
    (h : ∀ root ∈ config.roots, ∀ n ∈ root, config.InOrder n)
    (hname : config.FromRoot name) : config.InOrder name := by
  rcases hname with ⟨r, hr, hpath⟩ | ⟨root, hroot, d, hd, hpath⟩
  · have horder : config.InOrder r :=
      .intro r (.inr hr) (h _ (dependsOn_mem_roots hdisjoint hr))
    exact horder.reach hpath
  · have hmem : root ∈ config.roots := mem_append.mpr (.inr (by simpa using hroot))
    exact (h root hmem d hd).reach hpath

theorem not_noticed_of_returned (hdisjoint : config.Disjoint)
    (h : ∀ root ∈ config.roots, config.Returns fuel root {}) (hname : config.FromRoot name) :
    ¬ config.Noticed name := by
  have horder := inOrder_fromRoot hdisjoint (fun root hroot => inOrder_of_returned (h root hroot))
    hname
  rintro (hunknown | ⟨hlisted, hkey, d, hd, hnot⟩ | hcycle)
  · exact hunknown horder.known
  · obtain ⟨_, _, _, hcall, hmem⟩ := returned_of_listed hdisjoint h hlisted
    rcases returned_cases hcall hmem with ⟨-, hdeps⟩ | ⟨hc, -⟩
    · exact hnot (hdeps d hd).1
    · exact hc hkey
  · exact horder.not_cyclic hcycle

/-- The check comes to an end, and it raises exactly when there is something to notice. -/
theorem raised_iff_noticed (hdisjoint : config.Disjoint)
    (hfuel : config.components.size + config.runTargets.size < fuel) :
    config.checkCyclicDependencies fuel ≠ .outOfFuel ∧
      ((∃ e, config.checkCyclicDependencies fuel = .raised e) ↔
        ∃ name, config.FromRoot name ∧ config.Noticed name) := by
  have hsimple : config.Simple {} := ⟨.nil, .nil, nil_subset _, nil_subset _⟩
  have hends : ∀ root, config.getProcessDependencies fuel root {} ≠ .outOfFuel := fun root =>
    getProcessDependencies_ne_outOfFuel hsimple hfuel
  rcases config.checkRoots_cases fuel config.roots with
    ⟨root, hroot, r, hr, hbad, hcheck⟩ | ⟨hall, out, a, hcheck⟩
  · cases r with
    | outOfFuel => exact absurd hr (hends root)
    | returned out a => exact absurd rfl (hbad out a)
    | raised e =>
      rw [checkCyclicDependencies, hcheck]
      refine ⟨nofun, fun _ => ?_, fun _ => ⟨e, rfl⟩⟩
      by_contra hnone
      refine getProcessDependencies_ne_raised (fun n hn hnoticed => hnone ⟨n, hn, hnoticed⟩)
        (fun n hn => ?_) (fun n hn => .root hroot hn) hr
      exact ⟨fromRoot_of_mem_roots hdisjoint hroot hn, nofun, nofun⟩
  · rw [checkCyclicDependencies, hcheck]
    refine ⟨nofun, (fun ⟨e, he⟩ => nomatch he), fun ⟨name, hname, hnoticed⟩ => ?_⟩
    exact absurd hnoticed (not_noticed_of_returned hdisjoint hall hname)

/-! ## What is faulty and not noticed -/

theorem Listed.fromRoot (hdisjoint : config.Disjoint) (h : config.Listed name) :
    config.FromRoot name := by
  induction h with
  | root hroot hname => exact fromRoot_of_mem_roots hdisjoint hroot hname
  | runTarget _ _ hname ih => exact ih.edge hname
  | second _ _ hd _ hname ih => exact (ih.edge hd).edge hname

/-- The component is a dependency of a listed one. -/
def Second (config : Configuration Name) (name : Name) : Prop :=
  ∃ c, config.Listed c ∧ c ∈ config.components.keys ∧ name ∈ config.dependsOn c ∧
    name ∈ config.components.keys

theorem placed_of_fromRoot (hdisjoint : config.Disjoint)
    (hnone : ∀ n, config.FromRoot n → ¬ config.Noticed n) (hname : config.FromRoot name) :
    name ∈ config.runTargets.keys ∨ config.Listed name ∨ config.Second name := by
  have hedge : ∀ {n m}, config.FromRoot n → config.Edge n m →
      n ∈ config.runTargets.keys ∨ config.Listed n ∨ config.Second n →
      m ∈ config.runTargets.keys ∨ config.Listed m ∨ config.Second m := by
    rintro n m hn hnm (hr | hlisted | ⟨c, hlisted, hc, hnc, hkey⟩)
    · exact .inr (.inl (.root (dependsOn_mem_roots hdisjoint hr) hnm))
    · rcases not_not.mp fun hunknown => hnone n hn (.inl hunknown) with hkey | hr
      · by_cases hm : m ∈ config.components.keys
        · exact .inr (.inr ⟨n, hlisted, hkey, hnm, hm⟩)
        · exact absurd (.inr (.inl ⟨hlisted, hkey, m, hnm, hm⟩)) (hnone n hn)
      · exact .inr (.inl (.runTarget hlisted hr hnm))
    · exact .inr (.inl (.second hlisted hc hnc hkey hnm))
  rcases hname with ⟨r, hr, hpath⟩ | ⟨root, hroot, d, hd, hpath⟩
  · induction hpath with
    | refl => exact .inl hr
    | tail hpath hlast ih => exact hedge (.inl ⟨r, hr, hpath⟩) hlast ih
  · induction hpath with
    | refl =>
      exact .inr (.inl (.root (mem_append.mpr (.inr (by simpa using hroot))) hd))
    | tail hpath hlast ih => exact hedge (.inr ⟨root, hroot, d, hd, hpath⟩) hlast ih

theorem not_faulty_of_second (hdisjoint : config.Disjoint)
    (hsecond : config.SecondDependOnComponents)
    (hnone : ∀ n, config.FromRoot n → ¬ config.Noticed n) (hname : config.FromRoot name) :
    ¬ config.Faulty name := by
  rintro (hunknown | ⟨hkey, d, hd, hnot⟩ | hcycle)
  · exact hnone name hname (.inl hunknown)
  · rcases placed_of_fromRoot hdisjoint hnone hname with hr | hlisted | ⟨c, hlisted, hc, hnc, -⟩
    · exact hdisjoint name hkey hr
    · exact hnone name hname (.inr (.inl ⟨hlisted, hkey, d, hd, hnot⟩))
    · refine hnone d (hname.edge hd) (.inl fun hknown => ?_)
      exact hknown.elim hnot (hsecond c hlisted hc name hnc hkey d hd)
  · exact hnone name hname (.inr (.inr hcycle))

end Complete

/-- The check raises exactly when something faulty is reachable, if and only if no second component
depends on a run target or something is noticed. -/
theorem checkCyclicDependencies_raises_iff (config : Configuration Name)
    (hdisjoint : config.Disjoint) {fuel : Nat}
    (hfuel : config.components.size + config.runTargets.size < fuel) :
    config.checkCyclicDependencies fuel ≠ .outOfFuel ∧
      ((config.SecondDependOnComponents ∨ ∃ name, config.FromRoot name ∧ config.Noticed name) ↔
        ((∃ e, config.checkCyclicDependencies fuel = .raised e) ↔
          ∃ name, config.FromRoot name ∧ config.Faulty name)) := by
  obtain ⟨hends, hraised⟩ := raised_iff_noticed hdisjoint hfuel
  rw [hraised]
  refine ⟨hends, fun hcond => ⟨?_, fun hfaulty => ?_⟩, fun hiff => ?_⟩
  · rintro ⟨name, hname, hnoticed⟩
    exact ⟨name, hname, hnoticed.faulty⟩
  · obtain ⟨name, hname, hfaulty⟩ := hfaulty
    refine hcond.elim (fun hsecond => ?_) id
    by_contra hnone
    exact not_faulty_of_second hdisjoint hsecond (fun n hn h => hnone ⟨n, hn, h⟩) hname hfaulty
  · refine or_iff_not_imp_right.mpr fun hnone => ?_
    intro c hlisted hc d hd hkey n hn hr
    have hfaulty : config.Faulty d := .inr (.inl ⟨hkey, n, hn, fun hcomponent =>
      hdisjoint n hcomponent hr⟩)
    exact hnone (hiff.mpr ⟨d, (hlisted.fromRoot hdisjoint).edge hd, hfaulty⟩)

/-- `Startup` needs `A` and `B`, which both need `C`; nobody needs `D` and `E`. -/
def diamondSample : Configuration String where
  components := ⟨[("A", { dependsOn := ["C"] }), ("B", { dependsOn := ["C"] }), ("C", {}),
    ("D", { dependsOn := ["E"] }), ("E", { dependsOn := ["D"] })], by decide⟩
  runTargets := ⟨[("Startup", { dependsOn := ["A", "B"] })], by decide⟩
  initialRunTarget := "Startup"

/-- `Startup` needs `A`, which needs `B`, which needs the run target `Minimal`. -/
def crossedSample : Configuration String where
  components := ⟨[("A", { dependsOn := ["B"] }), ("B", { dependsOn := ["Minimal"] })], by decide⟩
  runTargets := ⟨[("Startup", { dependsOn := ["A"] }), ("Minimal", {})], by decide⟩
  initialRunTarget := "Startup"

theorem checkCyclicDependencies_raises_iff_diamond :
    diamondSample.Faulty "D" ∧
      ¬ ∃ name, diamondSample.FromRoot name ∧ diamondSample.Faulty name := by
  have hkeys : ∀ d ∈ diamondSample.components.keys, ∀ n ∈ diamondSample.dependsOn d,
      n ∉ diamondSample.runTargets.keys := by decide
  have h := (checkCyclicDependencies_raises_iff diamondSample (by unfold Disjoint; decide)
    (show 6 < 7 by decide)).2.mp (.inl fun c _ _ d _ hd => hkeys d hd)
  have hedges : diamondSample.Edge "D" "E" ∧ diamondSample.Edge "E" "D" := by
    unfold Edge
    decide
  refine ⟨.inr (.inr (.tail (.single hedges.1) hedges.2)), fun hfaulty => ?_⟩
  obtain ⟨e, he⟩ := h.mpr hfaulty
  cases he

theorem run_target_dependency_accepted :
    crossedSample.Disjoint ∧ crossedSample.FromRoot "B" ∧ crossedSample.Faulty "B" ∧
      ∀ fuel, crossedSample.checkCyclicDependencies (fuel + 5) = .returned [] {} := by
  refine ⟨by unfold Disjoint; decide, ?_, ?_, fun fuel => rfl⟩
  · refine .inl ⟨"Startup", by decide, ?_⟩
    have hA : crossedSample.Edge "Startup" "A" := by unfold Edge; decide
    have hB : crossedSample.Edge "A" "B" := by unfold Edge; decide
    exact .tail (.single hA) hB
  · exact .inr (.inl ⟨by decide, "Minimal", by decide, by decide⟩)

end Configuration

end LaunchManager
