import LaunchManager.Library.PackedWord
import LaunchManager.Library.UnorderedMap
import LaunchManager.HealthMonitor.Common
import Mathlib.Data.List.Chain

/-!
# The logic monitor

The monitor follows a state graph. The builder keeps the graph in a hash map; the
monitor keeps it in a vector, in the order in which the map was iterated, and its
current state as an index into the vector, packed with a status into one word.
Over the tags it is an automaton: a request that the graph allows moves to its
target, and the first one that it does not allow ends all.
-/

namespace LaunchManager

open List

set_option autoImplicit false

inductive LogicEvaluationError where
  | invalidState
  | invalidTransition
  | unmappedError
  deriving DecidableEq, Repr

namespace LogicEvaluationError

def toU8 : LogicEvaluationError → UInt8
  | .invalidState => 1
  | .invalidTransition => 2
  | .unmappedError => 3

def tryFrom (value : UInt8) : Option LogicEvaluationError :=
  if value = 1 then some .invalidState
  else if value = 2 then some .invalidTransition
  else if value = 3 then some .unmappedError
  else none

theorem tryFrom_toU8 (e : LogicEvaluationError) : tryFrom e.toU8 = some e := by
  cases e <;> rfl

end LogicEvaluationError

/-! ### The state word -/

/-- The index of the current state in the upper 56 bits, the status in the lower eight. -/
structure LogicStateSnapshot where
  word : UInt64
  deriving DecidableEq, Repr

namespace LogicStateSnapshot

def indexMask : UInt64 := 0xFFFFFFFFFFFFFF00
def indexOffset : UInt64 := 8
def statusMask : UInt64 := 0xFF
def okState : UInt8 := 0

variable (s : LogicStateSnapshot)

def currentStateIndex : Nat := ((s.word &&& indexMask) >>> indexOffset).toNat

def setCurrentStateIndex (value : Nat) : Option LogicStateSnapshot :=
  if value < 2 ^ 56 then
    some ⟨(UInt64.ofNat value <<< indexOffset) ||| (s.word &&& ~~~indexMask)⟩
  else none

def status : UInt8 := (s.word &&& statusMask).toUInt8

def monitorStatus : Except LogicEvaluationError Unit :=
  if s.status = okState then .ok ()
  else .error ((LogicEvaluationError.tryFrom s.status).getD .unmappedError)

def setMonitorStatus (value : LogicEvaluationError) : LogicStateSnapshot :=
  ⟨value.toU8.toUInt64 ||| (s.word &&& ~~~statusMask)⟩

def new (initialStateIndex : Nat) : Option LogicStateSnapshot :=
  (⟨0⟩ : LogicStateSnapshot).setCurrentStateIndex initialStateIndex

def Packs (index : Nat) (status : UInt8) : Prop := s.word.toNat = 2 ^ 8 * index + status.toNat

variable {s} {index : Nat} {status : UInt8}

theorem Packs.currentStateIndex_eq (h : s.Packs index status) : s.currentStateIndex = index := by
  have hlow : status.toNat < 2 ^ 8 := status.toNat_lt
  rw [currentStateIndex, PackedWord.toNat_high (by decide) (by decide), h]
  change (2 ^ 8 * index + status.toNat) / 2 ^ 8 = index
  omega

theorem Packs.status_eq (h : s.Packs index status) : s.status = status := by
  have hlow : status.toNat < 2 ^ 8 := status.toNat_lt
  apply UInt8.toNat_inj.mp
  rw [LogicStateSnapshot.status, UInt64.toNat_toUInt8, PackedWord.toNat_low (n := 8) rfl, h]
  omega

theorem Packs.setCurrentStateIndex {value : Nat} (h : s.Packs index status)
    (hvalue : value < 2 ^ 56) :
    ∃ s', s.setCurrentStateIndex value = some s' ∧ s'.Packs value status := by
  have hlow : status.toNat < 2 ^ 8 := status.toNat_lt
  refine ⟨_, if_pos hvalue, ?_⟩
  have hkept : (s.word &&& ~~~indexMask).toNat = status.toNat := by
    rw [PackedWord.toNat_low (n := 8) rfl, h]
    omega
  have hhigh : (UInt64.ofNat value).toNat = value :=
    UInt64.toNat_ofNat_of_lt' (Nat.lt_trans hvalue (by decide))
  rw [Packs, PackedWord.toNat_pack (by decide) (by rw [hhigh]; exact hvalue)
    (by rw [hkept]; exact hlow), hhigh, hkept]
  rfl

theorem Packs.setMonitorStatus (h : s.Packs index status) (e : LogicEvaluationError) :
    (s.setMonitorStatus e).Packs index e.toU8 := by
  have hlow : status.toNat < 2 ^ 8 := status.toNat_lt
  have hcleared : (s.word &&& ~~~statusMask).toNat = 2 ^ 8 * index := by
    rw [PackedWord.toNat_clear (n := 8) (by decide) (by decide) (by decide), h]
    omega
  have hcode : e.toU8.toUInt64.toNat < 2 ^ 8 := e.toU8.toNat_lt
  rw [Packs, LogicStateSnapshot.setMonitorStatus, PackedWord.toNat_or_low hcode hcleared]
  rfl

theorem packs_new {index : Nat} (h : index < 2 ^ 56) :
    ∃ s, new index = some s ∧ s.Packs index 0 := by
  have hzero : (⟨0⟩ : LogicStateSnapshot).Packs 0 0 := rfl
  exact hzero.setCurrentStateIndex h

theorem Packs.monitorStatus_ok (h : s.Packs index 0) : s.monitorStatus = .ok () := by
  rw [monitorStatus, h.status_eq]
  rfl

theorem Packs.monitorStatus_error {e : LogicEvaluationError} (h : s.Packs index e.toU8) :
    s.monitorStatus = .error e := by
  have hne : e.toU8 ≠ okState := by cases e <;> decide
  rw [monitorStatus, h.status_eq, if_neg hne, LogicEvaluationError.tryFrom_toU8]
  rfl

end LogicStateSnapshot

/-! ### Builder and monitor -/

structure StateNode (Tag : Type) where
  tag : Tag
  allowedTargets : List Tag

/-- The part of the monitor that the evaluation handle shares. -/
structure LogicMonitorInner (Tag MonitorTag : Type) where
  monitorTag : MonitorTag
  logicState : LogicStateSnapshot
  stateGraph : List (StateNode Tag)

structure LogicMonitorBuilder (Tag : Type) where
  initialState : Tag
  stateGraph : UnorderedMap Tag (List Tag)

variable {Tag MonitorTag : Type}

namespace LogicMonitorInner

/-- `none` where the initial index does not fit into the state word. -/
def new (monitorTag : MonitorTag) (initialStateIndex : Nat) (stateGraph : List (StateNode Tag)) :
    Option (LogicMonitorInner Tag MonitorTag) :=
  (LogicStateSnapshot.new initialStateIndex).map fun logicState =>
    { monitorTag, logicState, stateGraph }

variable (m : LogicMonitorInner Tag MonitorTag)

def evaluate : List (MonitorTag × LogicEvaluationError) :=
  match m.logicState.monitorStatus with
  | .ok () => []
  | .error e => [(m.monitorTag, e)]

def findNodeByIndex (stateIndex : Nat) : Except LogicEvaluationError (StateNode Tag) :=
  match m.stateGraph[stateIndex]? with
  | some node => .ok node
  | none => .error .invalidState

variable [DecidableEq Tag]

def findIndexByTag (stateTag : Tag) : Except LogicEvaluationError Nat :=
  match m.stateGraph.findIdx? fun node => node.tag = stateTag with
  | some index => .ok index
  | none => .error .invalidState

/-- The result and the monitor afterwards; `none` where the target's index does not fit. -/
def transition (targetState : Tag) :
    Option (Except LogicEvaluationError Tag × LogicMonitorInner Tag MonitorTag) :=
  match m.logicState.monitorStatus with
  | .error _ => some (.error .invalidState, m)
  | .ok () =>
    match m.findNodeByIndex m.logicState.currentStateIndex with
    | .error e => some (.error e, m)
    | .ok node =>
      if targetState ∈ node.allowedTargets then
        match m.findIndexByTag targetState with
        | .error e => some (.error e, m)
        | .ok index =>
          (m.logicState.setCurrentStateIndex index).map fun snapshot =>
            (.ok targetState, { m with logicState := snapshot })
      else
        some (.error .invalidTransition,
          { m with logicState := m.logicState.setMonitorStatus .invalidTransition })

def state : Except LogicEvaluationError Tag :=
  match m.logicState.monitorStatus with
  | .error _ => .error .invalidState
  | .ok () => (m.findNodeByIndex m.logicState.currentStateIndex).map StateNode.tag

def transitions : LogicMonitorInner Tag MonitorTag → List Tag →
    Option (List (Except LogicEvaluationError Tag) × LogicMonitorInner Tag MonitorTag)
  | m, [] => some ([], m)
  | m, target :: targets =>
    (m.transition target).bind fun r =>
      (transitions r.2 targets).map fun rs => (r.1 :: rs.1, rs.2)

end LogicMonitorInner

/-- The nodes in the order in which the map is iterated. -/
def stateGraphVec (graph : UnorderedMap Tag (List Tag)) : List (StateNode Tag) :=
  graph.entries.map fun entry => ⟨entry.1, entry.2⟩

namespace LogicMonitorBuilder

def new (initialState : Tag) : LogicMonitorBuilder Tag := ⟨initialState, UnorderedMap.empty⟩

def addState [DecidableEq Tag] (builder : LogicMonitorBuilder Tag) (state : Tag)
    (allowedTargets : List Tag) : LogicMonitorBuilder Tag :=
  { builder with
    stateGraph := builder.stateGraph.upsert state allowedTargets fun _ => allowedTargets }

/-- The loop keeps the last index that matches. -/
def lastIndexOf [DecidableEq Tag] (tag : Tag) (nodes : List (StateNode Tag)) : Option Nat :=
  nodes.zipIdx.foldl (fun found node => if node.1.tag = tag then some node.2 else found) none

/-- `none` where the construction of the monitor panics. -/
def build [DecidableEq Tag] (builder : LogicMonitorBuilder Tag) (monitorTag : MonitorTag) :
    Option (Except HealthMonitorError (LogicMonitorInner Tag MonitorTag)) :=
  if builder.stateGraph.entries = [] then some (.error .wrongState)
  else if builder.stateGraph.entries.any fun entry =>
      entry.2.any fun target => (builder.stateGraph.find? target).isNone then
    some (.error .invalidArgument)
  else
    match lastIndexOf builder.initialState (stateGraphVec builder.stateGraph) with
    | none => some (.error .invalidArgument)
    | some index =>
      (LogicMonitorInner.new monitorTag index (stateGraphVec builder.stateGraph)).map .ok

end LogicMonitorBuilder

/-! ### The graph over the tags -/

namespace StateGraph

variable (graph : UnorderedMap Tag (List Tag))

theorem tags_stateGraphVec : (stateGraphVec graph).map StateNode.tag = graph.keys := by
  simp [stateGraphVec, UnorderedMap.keys, Function.comp_def]

theorem length_stateGraphVec : (stateGraphVec graph).length = graph.size := by
  simp [stateGraphVec, UnorderedMap.size]

variable [DecidableEq Tag]

def Closed : Prop :=
  ∀ a targets, graph.find? a = some targets → ∀ b ∈ targets, b ∈ graph.keys

def Allows (a b : Tag) : Prop := ∃ targets, graph.find? a = some targets ∧ b ∈ targets

variable {graph}

theorem find?_of_node {index : Nat} {node : StateNode Tag}
    (h : (stateGraphVec graph)[index]? = some node) :
    graph.find? node.tag = some node.allowedTargets := by
  obtain ⟨entry, hentry, rfl⟩ := mem_map.mp (mem_of_getElem? h)
  exact UnorderedMap.find?_of_mem_entries hentry

theorem Closed.mem_of_allows (h : Closed graph) {a b : Tag} (hab : Allows graph a b) :
    b ∈ graph.keys := by
  obtain ⟨targets, hfind, hb⟩ := hab
  exact h a targets hfind b hb

theorem undefined_target_iff : (graph.entries.any fun entry =>
      entry.2.any fun target => (graph.find? target).isNone) = true ↔ ¬ Closed graph := by
  rw [Closed]
  push Not
  constructor
  · intro h
    obtain ⟨entry, hentry, h⟩ := any_eq_true.mp h
    obtain ⟨target, htarget, h⟩ := any_eq_true.mp h
    exact ⟨entry.1, entry.2, UnorderedMap.find?_of_mem_entries hentry, target, htarget,
      (graph.find?_eq_none_iff target).mp (Option.isNone_iff_eq_none.mp h)⟩
  · rintro ⟨a, targets, ha, target, htarget, hundefined⟩
    refine any_eq_true.mpr ⟨(a, targets), UnorderedMap.mem_of_lookup ha, ?_⟩
    refine any_eq_true.mpr ⟨target, htarget, ?_⟩
    rw [(graph.find?_eq_none_iff target).mpr hundefined]
    rfl

end StateGraph

open StateGraph

variable [DecidableEq Tag]

namespace LogicMonitorBuilder

theorem lastIndexOf_append (tag : Tag) (nodes : List (StateNode Tag)) (node : StateNode Tag) :
    lastIndexOf tag (nodes ++ [node]) =
      if node.tag = tag then some nodes.length else lastIndexOf tag nodes := by
  simp [lastIndexOf, zipIdx_append]

variable {nodes : List (StateNode Tag)}

theorem tag_of_lastIndexOf {tag : Tag} {index : Nat} (h : lastIndexOf tag nodes = some index) :
    ∃ node, nodes[index]? = some node ∧ node.tag = tag := by
  induction nodes using List.reverseRecOn with
  | nil => cases h
  | append_singleton nodes node ih =>
    rw [lastIndexOf_append] at h
    split at h
    · rename_i htag
      cases h
      exact ⟨node, by simp, htag⟩
    · obtain ⟨found, hfound, htag⟩ := ih h
      have hlt := (List.getElem?_eq_some_iff.mp hfound).1
      exact ⟨found, by rw [List.getElem?_append_left hlt, hfound], htag⟩

theorem lastIndexOf_eq_none_iff {tag : Tag} :
    lastIndexOf tag nodes = none ↔ tag ∉ nodes.map StateNode.tag := by
  induction nodes using List.reverseRecOn with
  | nil => simp [lastIndexOf]
  | append_singleton nodes node ih =>
    rw [lastIndexOf_append]
    by_cases htag : node.tag = tag
    · simp [htag]
    · simp [htag, Ne.symm htag, ih]

/-- The states that the description of the graph has to define are there. -/
structure WellDefined (builder : LogicMonitorBuilder Tag) : Prop where
  nonempty : builder.stateGraph.size ≠ 0
  initial : builder.initialState ∈ builder.stateGraph.keys
  closed : Closed builder.stateGraph

variable {builder : LogicMonitorBuilder Tag}

theorem WellDefined.build_eq (h : builder.WellDefined) (monitorTag : MonitorTag) :
    ∃ index, lastIndexOf builder.initialState (stateGraphVec builder.stateGraph) = some index ∧
      builder.build monitorTag =
        (LogicMonitorInner.new monitorTag index (stateGraphVec builder.stateGraph)).map .ok := by
  have hentries : builder.stateGraph.entries ≠ [] := fun he => h.nonempty (by
    rw [UnorderedMap.size, he]
    rfl)
  have htargets := mt undefined_target_iff.mp (not_not.mpr h.closed)
  cases hindex : lastIndexOf builder.initialState (stateGraphVec builder.stateGraph) with
  | none =>
    rw [lastIndexOf_eq_none_iff, tags_stateGraphVec] at hindex
    exact absurd h.initial hindex
  | some index =>
    refine ⟨index, rfl, ?_⟩
    rw [build, if_neg hentries, if_neg htargets, hindex]

theorem build_error_of_not_wellDefined (h : ¬ builder.WellDefined) (monitorTag : MonitorTag) :
    ∃ e, builder.build monitorTag = some (.error e) := by
  rw [build]
  split
  · exact ⟨_, rfl⟩
  split
  · exact ⟨_, rfl⟩
  rename_i hentries htargets
  have hclosed : Closed builder.stateGraph := not_not.mp (mt undefined_target_iff.mpr htargets)
  have hinitial : builder.initialState ∉ builder.stateGraph.keys := fun hinitial =>
    h ⟨mt length_eq_zero_iff.mp hentries, hinitial, hclosed⟩
  rw [← tags_stateGraphVec, ← lastIndexOf_eq_none_iff] at hinitial
  rw [hinitial]
  exact ⟨_, rfl⟩

end LogicMonitorBuilder

/-! ### The monitor simulates the graph -/

namespace LogicMonitorInner

variable {graph : UnorderedMap Tag (List Tag)} {m m' : LogicMonitorInner Tag MonitorTag} {a b : Tag}

structure StandsAt (graph : UnorderedMap Tag (List Tag)) (m : LogicMonitorInner Tag MonitorTag)
    (a : Tag) : Prop where
  nodes : m.stateGraph = stateGraphVec graph
  current : ∃ index node, m.logicState.Packs index 0 ∧ m.stateGraph[index]? = some node ∧
    node.tag = a

def Refused (m : LogicMonitorInner Tag MonitorTag) : Prop :=
  ∃ index, m.logicState.Packs index LogicEvaluationError.invalidTransition.toU8

omit [DecidableEq Tag] in
theorem StandsAt.state_eq (h : StandsAt graph m a) : m.state = .ok a := by
  obtain ⟨index, node, hpacks, hnode, rfl⟩ := h.current
  rw [state, hpacks.monitorStatus_ok, hpacks.currentStateIndex_eq, findNodeByIndex, hnode]
  rfl

omit [DecidableEq Tag] in
theorem StandsAt.evaluate_eq (h : StandsAt graph m a) : m.evaluate = [] := by
  obtain ⟨index, node, hpacks, -, -⟩ := h.current
  rw [evaluate, hpacks.monitorStatus_ok]

omit [DecidableEq Tag] in
theorem Refused.state_eq (h : m.Refused) : m.state = .error .invalidState := by
  obtain ⟨index, hpacks⟩ := h
  rw [state, hpacks.monitorStatus_error]

omit [DecidableEq Tag] in
theorem Refused.evaluate_eq (h : m.Refused) :
    m.evaluate = [(m.monitorTag, .invalidTransition)] := by
  obtain ⟨index, hpacks⟩ := h
  rw [evaluate, hpacks.monitorStatus_error]

theorem Refused.transition_eq (h : m.Refused) (target : Tag) :
    m.transition target = some (.error .invalidState, m) := by
  obtain ⟨index, hpacks⟩ := h
  rw [transition, hpacks.monitorStatus_error]

theorem StandsAt.transition_unfold (h : StandsAt graph m a) (target : Tag) :
    ∃ node, (target ∈ node.allowedTargets ↔ Allows graph a target) ∧
      m.findNodeByIndex m.logicState.currentStateIndex = .ok node := by
  obtain ⟨index, node, hpacks, hnode, rfl⟩ := h.current
  refine ⟨node, ?_, ?_⟩
  · rw [h.nodes] at hnode
    rw [Allows, find?_of_node hnode]
    simp
  · rw [hpacks.currentStateIndex_eq, findNodeByIndex, hnode]

theorem StandsAt.findIndexByTag_eq (h : StandsAt graph m a) (hb : b ∈ graph.keys) :
    ∃ index node, m.findIndexByTag b = .ok index ∧ m.stateGraph[index]? = some node ∧
      node.tag = b ∧ index < graph.size := by
  rw [← tags_stateGraphVec, ← h.nodes] at hb
  obtain ⟨node, hnode, htag⟩ := mem_map.mp hb
  cases hfound : m.stateGraph.findIdx? fun node => node.tag = b with
  | none =>
    have hnot := List.findIdx?_eq_none_iff.mp hfound node hnode
    exact absurd htag (of_decide_eq_false hnot)
  | some index =>
    obtain ⟨hlt, hfirst, -⟩ := List.findIdx?_eq_some_iff_getElem.mp hfound
    refine ⟨index, m.stateGraph[index], ?_, List.getElem?_eq_getElem hlt,
      of_decide_eq_true hfirst, ?_⟩
    · rw [findIndexByTag, hfound]
    · rw [← length_stateGraphVec, ← h.nodes]
      exact hlt

theorem StandsAt.transition_allowed (h : StandsAt graph m a) (hclosed : Closed graph)
    (hsize : graph.size ≤ 2 ^ 56) (hab : Allows graph a b) :
    ∃ m', m.transition b = some (.ok b, m') ∧ StandsAt graph m' b ∧
      m'.monitorTag = m.monitorTag := by
  obtain ⟨node, hiff, hfind⟩ := h.transition_unfold b
  obtain ⟨index, target, hindex, htarget, htag, hlt⟩ :=
    h.findIndexByTag_eq (hclosed.mem_of_allows hab)
  obtain ⟨_, _, hpacks, -, -⟩ := h.current
  obtain ⟨s, hset, hs⟩ := hpacks.setCurrentStateIndex (Nat.lt_of_lt_of_le hlt hsize)
  refine ⟨{ m with logicState := s }, ?_, ⟨h.nodes, index, target, hs, htarget, htag⟩, rfl⟩
  simp only [transition, hpacks.monitorStatus_ok, hfind, if_pos (hiff.mpr hab), hindex, hset]
  rfl

theorem StandsAt.transition_refused (h : StandsAt graph m a) (hab : ¬ Allows graph a b) :
    ∃ m', m.transition b = some (.error .invalidTransition, m') ∧ m'.Refused ∧
      m'.monitorTag = m.monitorTag := by
  obtain ⟨node, hiff, hfind⟩ := h.transition_unfold b
  obtain ⟨index, _, hpacks, -, -⟩ := h.current
  refine ⟨{ m with logicState := m.logicState.setMonitorStatus .invalidTransition }, ?_,
    ⟨index, hpacks.setMonitorStatus .invalidTransition⟩, rfl⟩
  simp only [transition, hpacks.monitorStatus_ok, hfind, if_neg (mt hiff.mp hab)]

theorem transitions_append (m : LogicMonitorInner Tag MonitorTag) (xs ys : List Tag) :
    m.transitions (xs ++ ys) =
      (m.transitions xs).bind fun r =>
        (r.2.transitions ys).map fun rs => (r.1 ++ rs.1, rs.2) := by
  induction xs generalizing m with
  | nil => simp [transitions]
  | cons x xs ih =>
    simp [transitions, ih, Option.bind_assoc, Option.map_bind, Option.bind_map, Function.comp_def]

theorem Refused.transitions_eq (h : m.Refused) (targets : List Tag) :
    m.transitions targets = some (targets.map fun _ => .error .invalidState, m) := by
  induction targets with
  | nil => rfl
  | cons target targets ih => simp [transitions, h.transition_eq, ih]

theorem StandsAt.transitions_path (h : StandsAt graph m a) (hclosed : Closed graph)
    (hsize : graph.size ≤ 2 ^ 56) {path : List Tag}
    (hpath : List.IsChain (Allows graph) (a :: path)) :
    ∃ m', m.transitions path = some (path.map .ok, m') ∧
      StandsAt graph m' ((a :: path).getLast (cons_ne_nil a path)) ∧
      m'.monitorTag = m.monitorTag := by
  induction path generalizing a m with
  | nil => exact ⟨m, rfl, h, rfl⟩
  | cons b path ih =>
    rw [isChain_cons_cons] at hpath
    obtain ⟨m₁, hstep, hfollows, htag₁⟩ := h.transition_allowed hclosed hsize hpath.1
    obtain ⟨m₂, hrest, hlast, htag₂⟩ := ih hfollows hpath.2
    refine ⟨m₂, ?_, ?_, htag₂.trans htag₁⟩
    · simp [transitions, hstep, hrest]
    · rwa [getLast_cons (cons_ne_nil b path)]

theorem StandsAt.transitions_refused (h : StandsAt graph m a) (hab : ¬ Allows graph a b)
    (rest : List Tag) : ∃ m', m.transitions (b :: rest) =
        some (.error .invalidTransition :: rest.map fun _ => .error .invalidState, m') ∧
      m'.Refused ∧ m'.monitorTag = m.monitorTag := by
  obtain ⟨m', hstep, hrefused, htag⟩ := h.transition_refused hab
  refine ⟨m', ?_, hrefused, htag⟩
  simp [transitions, hstep, hrefused.transitions_eq]

end LogicMonitorInner

namespace LogicMonitorBuilder

open LogicMonitorInner

variable {builder : LogicMonitorBuilder Tag}

theorem WellDefined.build_follows (h : builder.WellDefined)
    (hsize : builder.stateGraph.size ≤ 2 ^ 56) (monitorTag : MonitorTag) :
    ∃ m, builder.build monitorTag = some (.ok m) ∧
      StandsAt builder.stateGraph m builder.initialState ∧ m.monitorTag = monitorTag := by
  obtain ⟨index, hindex, hbuild⟩ := h.build_eq monitorTag
  obtain ⟨node, hnode, htag⟩ := tag_of_lastIndexOf hindex
  have hlt : index < (stateGraphVec builder.stateGraph).length :=
    (List.getElem?_eq_some_iff.mp hnode).1
  rw [length_stateGraphVec] at hlt
  obtain ⟨s, hs, hpacks⟩ := LogicStateSnapshot.packs_new (Nat.lt_of_lt_of_le hlt hsize)
  refine ⟨⟨monitorTag, s, stateGraphVec builder.stateGraph⟩, ?_,
    ⟨rfl, index, node, hpacks, hnode, htag⟩, rfl⟩
  rw [hbuild, LogicMonitorInner.new, hs]
  rfl

/-- The monitor of a graph whose indices fit is the automaton of the graph. -/
theorem monitor_follows_graph (builder : LogicMonitorBuilder Tag) (monitorTag : MonitorTag)
    (hsize : builder.stateGraph.size ≤ 2 ^ 56) :
    ((∃ m, builder.build monitorTag = some (.ok m)) ↔ builder.WellDefined) ∧
    ∀ m, builder.build monitorTag = some (.ok m) →
      ∀ path, List.IsChain (Allows builder.stateGraph) (builder.initialState :: path) →
        (∃ m', m.transitions path = some (path.map .ok, m') ∧
          m'.state =
            .ok ((builder.initialState :: path).getLast (List.cons_ne_nil _ path)) ∧
          m'.evaluate = []) ∧
        ∀ bad rest,
          ¬ Allows builder.stateGraph
            ((builder.initialState :: path).getLast (List.cons_ne_nil _ path)) bad →
          ∃ m', m.transitions (path ++ bad :: rest) =
              some (path.map .ok ++
                .error .invalidTransition :: rest.map fun _ => .error .invalidState, m') ∧
            m'.state = .error .invalidState ∧
            m'.evaluate = [(monitorTag, .invalidTransition)] := by
  have hdefined : ∀ m, builder.build monitorTag = some (.ok m) → builder.WellDefined := by
    intro m hm
    by_contra hnot
    obtain ⟨e, he⟩ := build_error_of_not_wellDefined hnot monitorTag
    rw [he] at hm
    cases hm
  refine ⟨⟨fun ⟨m, hm⟩ => hdefined m hm, fun h => ?_⟩, ?_⟩
  · obtain ⟨m, hm, -, -⟩ := h.build_follows hsize monitorTag
    exact ⟨m, hm⟩
  intro m hm path hpath
  have h := hdefined m hm
  obtain ⟨m₀, hm₀, hfollows, htag₀⟩ := h.build_follows hsize monitorTag
  obtain rfl : m₀ = m := by
    rw [hm₀] at hm
    cases hm
    rfl
  obtain ⟨m₁, hrun, hlast, htag₁⟩ := hfollows.transitions_path h.closed hsize hpath
  refine ⟨⟨m₁, hrun, hlast.state_eq, hlast.evaluate_eq⟩, ?_⟩
  intro bad rest hbad
  obtain ⟨m₂, hrest, hrefused, htag₂⟩ := hlast.transitions_refused hbad rest
  refine ⟨m₂, ?_, hrefused.state_eq, ?_⟩
  · simp [transitions_append, hrun, hrest]
  · rw [hrefused.evaluate_eq, htag₂, htag₁, htag₀]

def door : LogicMonitorBuilder Nat :=
  (((new 0).addState 0 [1]).addState 1 [0, 2]).addState 2 []

theorem monitor_follows_graph_door :
    door.stateGraph.size ≤ 2 ^ 56 ∧
    ∃ m m', door.build "door" = some (.ok m) ∧
      m.transitions [1, 0, 1, 2, 0, 1] =
        some ([.ok 1, .ok 0, .ok 1, .ok 2, .error .invalidTransition, .error .invalidState], m') ∧
      m'.evaluate = [("door", .invalidTransition)] := by
  have hsize : door.stateGraph.size ≤ 2 ^ 56 := by decide
  obtain ⟨hbuild, hruns⟩ := monitor_follows_graph door "door" hsize
  have hdefined : door.WellDefined := ⟨by decide, by decide, by
    rw [← not_not (a := Closed door.stateGraph), ← undefined_target_iff]
    decide⟩
  obtain ⟨m, hm⟩ := hbuild.mpr hdefined
  have hpath : List.IsChain (Allows door.stateGraph) (0 :: [1, 0, 1, 2]) := by
    simp [Allows, show door.stateGraph.find? 0 = some [1] from by decide,
      show door.stateGraph.find? 1 = some [0, 2] from by decide]
  have hbad : ¬ Allows door.stateGraph 2 0 := by
    simp [Allows, show door.stateGraph.find? 2 = some [] from by decide]
  obtain ⟨m', hrun, -, heval⟩ := (hruns m hm _ hpath).2 0 [1] hbad
  exact ⟨hsize, m, m', hm, hrun, heval⟩

/-- The states `0` to `n`, none with a way out, in this order; the last one is initial. -/
def isolated (n : Nat) : LogicMonitorBuilder Nat where
  initialState := n
  stateGraph :=
    { entries := (List.range (n + 1)).map fun i => (i, [])
      distinct := by simpa [Function.comp_def] using List.nodup_range }

theorem wellDefined_isolated (n : Nat) : (isolated n).WellDefined where
  nonempty := by simp [isolated, UnorderedMap.size]
  initial := by simp [isolated, UnorderedMap.keys]
  closed := by
    intro a targets hfind b hb
    have hmem := UnorderedMap.mem_of_lookup hfind
    simp only [isolated, mem_map, Prod.mk.injEq] at hmem
    obtain ⟨i, -, -, rfl⟩ := hmem
    cases hb

theorem build_isolated (n : Nat) (monitorTag : MonitorTag) : (isolated n).build monitorTag =
      (LogicMonitorInner.new monitorTag n (stateGraphVec (isolated n).stateGraph)).map .ok := by
  obtain ⟨index, hindex, hbuild⟩ := (wellDefined_isolated n).build_eq monitorTag
  obtain ⟨node, hnode, htag⟩ := tag_of_lastIndexOf hindex
  have hinitial : index = n := by
    simp only [stateGraphVec, isolated, map_map, List.getElem?_map,
      Option.map_eq_some_iff] at hnode htag
    obtain ⟨i, hi, rfl⟩ := hnode
    rw [List.getElem?_eq_some_iff] at hi
    obtain ⟨hlt, hi⟩ := hi
    rw [getElem_range] at hi
    exact hi.trans htag
  rw [hbuild, hinitial]

/-- The index of the last of one state too many does not fit into the state word. -/
theorem build_panics_at_wide_graph :
    (isolated (2 ^ 56)).WellDefined ∧ (isolated (2 ^ 56)).build () = none := by
  refine ⟨wellDefined_isolated _, ?_⟩
  rw [build_isolated, LogicMonitorInner.new, LogicStateSnapshot.new,
    LogicStateSnapshot.setCurrentStateIndex, if_neg (Nat.lt_irrefl _)]
  rfl

end LogicMonitorBuilder

end LaunchManager
