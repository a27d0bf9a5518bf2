import LaunchManager.Library.UnorderedMap
import LaunchManager.HealthMonitor.Common
import LaunchManager.HealthMonitor.Worker

/-!
# Ownership of the monitors

The health monitor owns every monitor until the application takes it; from then on
it keeps an evaluation handle. Starting collects the handles of the three maps, one
container after the other. It is refused when a monitor has not been taken yet, but
the handles visited before have left their containers by then.
-/

namespace LaunchManager

open UnorderedMap

set_option autoImplicit false

class Monitor (M : Type) (Handle : outParam Type) where
  getEvalHandle : M → Handle

inductive MonitorState (M Handle : Type) where
  | available (monitor : M)
  | taken (handle : Handle)
  deriving DecidableEq, Repr

abbrev MonitorContainer (M Handle : Type) := Option (MonitorState M Handle)

abbrev MonitorMap (MonitorTag M Handle : Type) :=
  UnorderedMap MonitorTag (MonitorContainer M Handle)

namespace MonitorContainer

variable {M Handle : Type}

def isTaken : MonitorContainer M Handle → Bool
  | some (.taken _) => true
  | _ => false

variable [Monitor M Handle]

/-- An available monitor is handed out and leaves its handle. -/
def take : MonitorContainer M Handle → MonitorContainer M Handle
  | some (.available monitor) => some (.taken (Monitor.getEvalHandle monitor))
  | container => container

def handle? : MonitorContainer M Handle → Option Handle
  | some (.available monitor) => some (Monitor.getEvalHandle monitor)
  | some (.taken handle) => some handle
  | none => none

@[simp] theorem handle?_take (c : MonitorContainer M Handle) : handle? (take c) = handle? c := by
  rcases c with _ | _ | _ <;> rfl

@[simp] theorem take_take (c : MonitorContainer M Handle) : take (take c) = take c := by
  rcases c with _ | _ | _ <;> rfl

end MonitorContainer

namespace HealthMonitor

open MonitorContainer

variable {MonitorTag M Handle : Type} [DecidableEq MonitorTag]

def getMonitor [Monitor M Handle] (monitors : MonitorMap MonitorTag M Handle)
    (monitorTag : MonitorTag) : Option M × MonitorMap MonitorTag M Handle :=
  match monitors.find? monitorTag with
  | some (some (.available monitor)) =>
    (some monitor,
      monitors.modify monitorTag fun _ => some (.taken (Monitor.getEvalHandle monitor)))
  | some (some (.taken handle)) =>
    (none, monitors.modify monitorTag fun _ => some (.taken handle))
  | some none => (none, monitors.modify monitorTag fun _ => none)
  | none => (none, monitors)

/-- The loop over the containers; the vector of collected handles has a fixed capacity. -/
def collectEntries (capacity : Nat) : List Handle → List (MonitorTag × MonitorContainer M Handle) →
    List (MonitorTag × MonitorContainer M Handle) × Except HealthMonitorError (List Handle)
  | collected, [] => ([], .ok collected)
  | collected, (tag, some (.taken handle)) :: rest =>
    if collected.length < capacity then
      let r := collectEntries capacity (collected ++ [handle]) rest
      ((tag, none) :: r.1, r.2)
    else ((tag, none) :: rest, .error .wrongState)
  | _, (tag, some (.available monitor)) :: rest =>
    ((tag, some (.available monitor)) :: rest, .error .wrongState)
  | _, (tag, none) :: rest => ((tag, none) :: rest, .error .wrongState)

omit [DecidableEq MonitorTag] in
theorem keys_collectEntries (capacity : Nat) (collected : List Handle)
    (entries : List (MonitorTag × MonitorContainer M Handle)) :
    (collectEntries capacity collected entries).1.map Prod.fst = entries.map Prod.fst := by
  fun_induction collectEntries capacity collected entries with
  | case2 collected tag handle rest hroom r ih => exact congrArg (tag :: ·) ih
  | _ => rfl

def collectGivenMonitors (capacity : Nat) (collected : List Handle)
    (monitors : MonitorMap MonitorTag M Handle) :
    MonitorMap MonitorTag M Handle × Except HealthMonitorError (List Handle) :=
  let r := collectEntries capacity collected monitors.entries
  (⟨r.1, by rw [keys_collectEntries]; exact monitors.distinct⟩, r.2)

end HealthMonitor

/-- The thread is what the worker was started with last. -/
structure HealthMonitor (MonitorTag Deadline Heartbeat Logic Handle : Type) where
  deadlineMonitors : MonitorMap MonitorTag Deadline Handle
  heartbeatMonitors : MonitorMap MonitorTag Heartbeat Handle
  logicMonitors : MonitorMap MonitorTag Logic Handle
  supervisorApiCycle : Nat
  internalDurationCycle : Nat
  thread : Option (Worker.Settings Handle)

namespace HealthMonitor

open MonitorContainer

variable {MonitorTag Deadline Heartbeat Logic Handle M : Type}

def numMonitors (hm : HealthMonitor MonitorTag Deadline Heartbeat Logic Handle) : Nat :=
  hm.deadlineMonitors.size + hm.heartbeatMonitors.size + hm.logicMonitors.size

def startInternal (hm : HealthMonitor MonitorTag Deadline Heartbeat Logic Handle) :
    Except HealthMonitorError Unit × HealthMonitor MonitorTag Deadline Heartbeat Logic Handle :=
  match collectGivenMonitors hm.numMonitors [] hm.deadlineMonitors with
  | (deadlineMonitors, .error e) => (.error e, { hm with deadlineMonitors })
  | (deadlineMonitors, .ok collected) =>
    match collectGivenMonitors hm.numMonitors collected hm.heartbeatMonitors with
    | (heartbeatMonitors, .error e) => (.error e, { hm with deadlineMonitors, heartbeatMonitors })
    | (heartbeatMonitors, .ok collected) =>
      match collectGivenMonitors hm.numMonitors collected hm.logicMonitors with
      | (logicMonitors, .error e) =>
        (.error e, { hm with deadlineMonitors, heartbeatMonitors, logicMonitors })
      | (logicMonitors, .ok collected) =>
        (.ok (), { hm with
          deadlineMonitors, heartbeatMonitors, logicMonitors
          thread := some ⟨collected, hm.supervisorApiCycle, hm.internalDurationCycle⟩ })

inductive GetCall (MonitorTag : Type) where
  | deadline (tag : MonitorTag)
  | heartbeat (tag : MonitorTag)
  | logic (tag : MonitorTag)
  deriving DecidableEq, Repr

section Calls
variable [DecidableEq MonitorTag] [Monitor Deadline Handle] [Monitor Heartbeat Handle]
  [Monitor Logic Handle]

/-- The health monitor after a call of `get_deadline_monitor` and its siblings. -/
def get (hm : HealthMonitor MonitorTag Deadline Heartbeat Logic Handle) :
    GetCall MonitorTag → HealthMonitor MonitorTag Deadline Heartbeat Logic Handle
  | .deadline tag => { hm with deadlineMonitors := (getMonitor hm.deadlineMonitors tag).2 }
  | .heartbeat tag => { hm with heartbeatMonitors := (getMonitor hm.heartbeatMonitors tag).2 }
  | .logic tag => { hm with logicMonitors := (getMonitor hm.logicMonitors tag).2 }

def getAll (hm : HealthMonitor MonitorTag Deadline Heartbeat Logic Handle)
    (calls : List (GetCall MonitorTag)) :
    HealthMonitor MonitorTag Deadline Heartbeat Logic Handle :=
  calls.foldl get hm

end Calls

/-- A new health monitor still has every monitor. -/
def containers (monitors : UnorderedMap MonitorTag M) : MonitorMap MonitorTag M Handle where
  entries := monitors.entries.map fun e => (e.1, some (.available e.2))
  distinct := by simpa [Function.comp_def] using monitors.distinct

/-- What the builder returns for the monitors it has built. -/
def built (deadline : UnorderedMap MonitorTag Deadline)
    (heartbeat : UnorderedMap MonitorTag Heartbeat) (logic : UnorderedMap MonitorTag Logic)
    (supervisorApiCycle internalProcessingCycle : Nat) :
    HealthMonitor MonitorTag Deadline Heartbeat Logic Handle where
  deadlineMonitors := containers deadline
  heartbeatMonitors := containers heartbeat
  logicMonitors := containers logic
  supervisorApiCycle := supervisorApiCycle
  internalDurationCycle := internalProcessingCycle
  thread := none

/-! ### Taking monitors -/

section Taking
variable [DecidableEq MonitorTag] [Monitor M Handle]

theorem getMonitor_snd (monitors : MonitorMap MonitorTag M Handle) (tag : MonitorTag) :
    (getMonitor monitors tag).2 = monitors.modify tag take := by
  have hset : ∀ {c : MonitorContainer M Handle}, monitors.find? tag = some c →
      (monitors.modify tag fun _ => take c) = monitors.modify tag take := by
    intro c hc
    apply modify_congr
    intro c' hc'
    rw [hc] at hc'
    cases hc'
    rfl
  cases hfind : monitors.find? tag with
  | none =>
    have hself : monitors.modify tag take = monitors := by
      apply modify_eq_self
      intro c hc
      rw [hfind] at hc
      cases hc
    rw [hself, getMonitor, hfind]
  | some c =>
    rw [← hset hfind, getMonitor, hfind]
    rcases c with _ | _ | _ <;> rfl

/-- The containers after the monitors of the tags in `called` have been asked for. -/
def takeCalled (called : MonitorTag → Prop) [DecidablePred called]
    (monitors : MonitorMap MonitorTag M Handle) : MonitorMap MonitorTag M Handle :=
  monitors.mapValues fun tag c => if called tag then take c else c

theorem takeCalled_getMonitor (called : MonitorTag → Prop) [DecidablePred called]
    (monitors : MonitorMap MonitorTag M Handle) (tag : MonitorTag) :
    takeCalled called (getMonitor monitors tag).2 =
      takeCalled (fun j => j = tag ∨ called j) monitors := by
  rw [getMonitor_snd, UnorderedMap.modify, takeCalled, takeCalled, mapValues_mapValues]
  apply mapValues_congr
  intro j c
  by_cases hj : j = tag <;> by_cases hcalled : called j <;> simp [hj, hcalled]

omit [DecidableEq MonitorTag] in
theorem takeCalled_congr {p q : MonitorTag → Prop} [DecidablePred p] [DecidablePred q]
    (h : ∀ tag, p tag ↔ q tag) (monitors : MonitorMap MonitorTag M Handle) :
    takeCalled p monitors = takeCalled q monitors := by
  apply mapValues_congr
  intro tag c
  simp only [h]

omit [DecidableEq MonitorTag] in
theorem takeCalled_of_forall_not {p : MonitorTag → Prop} [DecidablePred p] (h : ∀ tag, ¬ p tag)
    (monitors : MonitorMap MonitorTag M Handle) : takeCalled p monitors = monitors := by
  apply eq_of_entries
  simp [takeCalled, UnorderedMap.mapValues, h]

end Taking

section Calls
variable [DecidableEq MonitorTag] [Monitor Deadline Handle] [Monitor Heartbeat Handle]
  [Monitor Logic Handle] [Monitor M Handle]

theorem monitors_getAll {field : HealthMonitor MonitorTag Deadline Heartbeat Logic Handle →
      MonitorMap MonitorTag M Handle}
    {call : MonitorTag → GetCall MonitorTag} (hinj : Function.Injective call)
    (hcall : ∀ hm tag, field (hm.get (call tag)) = (getMonitor (field hm) tag).2)
    (hother : ∀ hm c, (∀ tag, c ≠ call tag) → field (hm.get c) = field hm)
    (hm : HealthMonitor MonitorTag Deadline Heartbeat Logic Handle)
    (calls : List (GetCall MonitorTag)) :
    field (hm.getAll calls) = takeCalled (fun tag => call tag ∈ calls) (field hm) := by
  induction calls generalizing hm with
  | nil => rw [takeCalled_of_forall_not (fun tag => List.not_mem_nil), getAll, List.foldl_nil]
  | cons c calls ih =>
    have hnext : field (hm.getAll (c :: calls)) = field ((hm.get c).getAll calls) := rfl
    rw [hnext, ih]
    by_cases hc : ∃ tag, c = call tag
    · obtain ⟨tag, rfl⟩ := hc
      rw [hcall, takeCalled_getMonitor]
      apply takeCalled_congr
      intro j
      rw [List.mem_cons, hinj.eq_iff]
    · rw [hother hm c (not_exists.mp hc)]
      apply takeCalled_congr
      intro j
      rw [List.mem_cons, or_iff_right (fun he => hc ⟨j, he.symm⟩)]

variable (hm : HealthMonitor MonitorTag Deadline Heartbeat Logic Handle)
  (calls : List (GetCall MonitorTag))

theorem deadlineMonitors_getAll : (hm.getAll calls).deadlineMonitors =
      takeCalled (fun tag => .deadline tag ∈ calls) hm.deadlineMonitors := by
  apply monitors_getAll (fun _ _ => GetCall.deadline.inj) (fun _ _ => rfl)
  intro hm c hc
  cases c with
  | deadline tag => exact absurd rfl (hc tag)
  | heartbeat tag | logic tag => rfl

theorem heartbeatMonitors_getAll : (hm.getAll calls).heartbeatMonitors =
      takeCalled (fun tag => .heartbeat tag ∈ calls) hm.heartbeatMonitors := by
  apply monitors_getAll (fun _ _ => GetCall.heartbeat.inj) (fun _ _ => rfl)
  intro hm c hc
  cases c with
  | deadline tag | logic tag => rfl
  | heartbeat tag => exact absurd rfl (hc tag)

theorem logicMonitors_getAll : (hm.getAll calls).logicMonitors =
      takeCalled (fun tag => .logic tag ∈ calls) hm.logicMonitors := by
  apply monitors_getAll (fun _ _ => GetCall.logic.inj) (fun _ _ => rfl)
  intro hm c hc
  cases c with
  | deadline tag | heartbeat tag => rfl
  | logic tag => exact absurd rfl (hc tag)

theorem settings_getAll : (hm.getAll calls).supervisorApiCycle = hm.supervisorApiCycle ∧
      (hm.getAll calls).internalDurationCycle = hm.internalDurationCycle := by
  induction calls generalizing hm with
  | nil => exact ⟨rfl, rfl⟩
  | cons c calls ih =>
    have hget : (hm.get c).supervisorApiCycle = hm.supervisorApiCycle ∧
        (hm.get c).internalDurationCycle = hm.internalDurationCycle := by
      cases c <;> exact ⟨rfl, rfl⟩
    rw [← hget.1, ← hget.2]
    exact ih (hm.get c)

end Calls

/-! ### Collecting handles -/

section Collecting
variable {capacity : Nat} {collected : List Handle} {monitors : MonitorMap MonitorTag M Handle}

def takenFlags (monitors : MonitorMap MonitorTag M Handle) : List Bool :=
  monitors.entries.map fun e => e.2.isTaken

theorem collectGivenMonitors_empty (hempty : takenFlags monitors = []) :
    collectGivenMonitors capacity collected monitors = (monitors, .ok collected) := by
  obtain ⟨entries, hdistinct⟩ := monitors
  obtain rfl : entries = [] := List.map_eq_nil_iff.mp hempty
  rfl

variable {flags : List Bool} {emptied : MonitorMap MonitorTag M Handle}

theorem collectGivenMonitors_first (hfirst : takenFlags monitors = false :: flags) :
    collectGivenMonitors capacity collected monitors = (monitors, .error .wrongState) := by
  obtain ⟨entries, hdistinct⟩ := monitors
  obtain ⟨⟨tag, c⟩, rest, rfl, hc, -⟩ := List.map_eq_cons_iff.mp hfirst
  rcases c with _ | _ | handle
  · rfl
  · rfl
  · cases hc

theorem collectGivenMonitors_torn {result : Except HealthMonitorError (List Handle)}
    (hfirst : takenFlags monitors = true :: flags)
    (h : collectGivenMonitors capacity collected monitors = (emptied, result)) :
    emptied ≠ monitors := by
  obtain ⟨entries, hdistinct⟩ := monitors
  obtain ⟨⟨tag, c⟩, rest, rfl, hc, -⟩ := List.map_eq_cons_iff.mp hfirst
  rcases c with _ | _ | handle
  · cases hc
  · cases hc
  · rintro rfl
    have hhead := congrArg (fun r => r.1.entries.head?) h
    simp only [collectGivenMonitors, collectEntries] at hhead
    split_ifs at hhead <;> cases hhead

theorem collectGivenMonitors_ok {all : List Handle}
    (h : collectGivenMonitors capacity collected monitors = (emptied, .ok all)) :
    ∀ b ∈ takenFlags monitors, b = true := by
  obtain ⟨entries, hdistinct⟩ := monitors
  replace h := congrArg Prod.snd h
  simp only [collectGivenMonitors, takenFlags] at h ⊢
  fun_induction collectEntries capacity collected entries with
  | case1 => exact fun _ h => absurd h List.not_mem_nil
  | case2 collected tag handle rest hroom r ih =>
    exact List.forall_mem_cons.mpr ⟨rfl, ih (List.nodup_cons.mp hdistinct).2 h⟩
  | _ => cases h

variable [Monitor M Handle]

def handles (monitors : MonitorMap MonitorTag M Handle) : List Handle :=
  monitors.entries.filterMap fun e => e.2.handle?

theorem length_handles_le (monitors : MonitorMap MonitorTag M Handle) :
    (handles monitors).length ≤ monitors.size := List.length_filterMap_le _ _

theorem collectEntries_taken (collected : List Handle)
    {entries : List (MonitorTag × MonitorContainer M Handle)}
    (htaken : ∀ e ∈ entries, e.2.isTaken = true)
    (hroom : collected.length + entries.length ≤ capacity) :
    (collectEntries capacity collected entries).2 =
      .ok (collected ++ entries.filterMap fun e => e.2.handle?) := by
  induction entries generalizing collected with
  | nil => simp [collectEntries]
  | cons e rest ih =>
    obtain ⟨tag, c⟩ := e
    rw [List.length_cons] at hroom
    have hhead := htaken (tag, c) List.mem_cons_self
    rcases c with _ | _ | handle
    · cases hhead
    · cases hhead
    · have hrest := ih (collected ++ [handle]) (fun e he => htaken e (List.mem_cons_of_mem _ he))
        (by
          rw [List.length_append, List.length_singleton]
          omega)
      rw [collectEntries, if_pos (by omega)]
      simpa [handle?] using hrest

theorem collectGivenMonitors_taken (htaken : ∀ b ∈ takenFlags monitors, b = true)
    (hroom : collected.length + monitors.size ≤ capacity) :
    ∃ emptied, collectGivenMonitors capacity collected monitors =
      (emptied, .ok (collected ++ handles monitors)) :=
  ⟨_, Prod.ext rfl
    (collectEntries_taken collected (fun _ he => htaken _ (List.mem_map_of_mem he)) hroom)⟩

end Collecting

section Starting
variable (hm : HealthMonitor MonitorTag Deadline Heartbeat Logic Handle)

def visited : List Bool :=
  takenFlags hm.deadlineMonitors ++ takenFlags hm.heartbeatMonitors ++ takenFlags hm.logicMonitors

/-- All monitors have been taken, or the first container that is visited holds no handle. -/
def Untorn : Prop := (∀ b ∈ hm.visited, b = true) ∨ hm.visited.head? ≠ some true

instance : Decidable hm.Untorn :=
  inferInstanceAs (Decidable ((∀ b ∈ hm.visited, b = true) ∨ hm.visited.head? ≠ some true))

variable {hm}

theorem startInternal_first (hfirst : hm.visited.head? = some false) :
    hm.startInternal = (.error .wrongState, hm) := by
  cases hd : takenFlags hm.deadlineMonitors with
  | cons b flags =>
    obtain rfl : b = false := by simpa [visited, hd] using hfirst
    simp only [startInternal, collectGivenMonitors_first hd]
  | nil =>
    cases hh : takenFlags hm.heartbeatMonitors with
    | cons b flags =>
      obtain rfl : b = false := by simpa [visited, hd, hh] using hfirst
      simp only [startInternal, collectGivenMonitors_empty hd, collectGivenMonitors_first hh]
    | nil =>
      cases hl : takenFlags hm.logicMonitors with
      | cons b flags =>
        obtain rfl : b = false := by simpa [visited, hd, hh, hl] using hfirst
        simp only [startInternal, collectGivenMonitors_empty hd, collectGivenMonitors_empty hh,
          collectGivenMonitors_first hl]
      | nil => simp [visited, hd, hh, hl] at hfirst

theorem startInternal_torn (hfirst : hm.visited.head? = some true) : hm.startInternal.2 ≠ hm := by
  intro heq
  rw [startInternal] at heq
  cases hd : takenFlags hm.deadlineMonitors with
  | cons b flags =>
    obtain rfl : b = true := by simpa [visited, hd] using hfirst
    split at heq
    · next h => exact collectGivenMonitors_torn hd h (congrArg deadlineMonitors heq)
    · next h =>
      refine collectGivenMonitors_torn hd h ?_
      split at heq
      · exact congrArg deadlineMonitors heq
      · split at heq <;> exact congrArg deadlineMonitors heq
  | nil =>
    simp only [collectGivenMonitors_empty hd] at heq
    cases hh : takenFlags hm.heartbeatMonitors with
    | cons b flags =>
      obtain rfl : b = true := by simpa [visited, hd, hh] using hfirst
      split at heq
      · next h => exact collectGivenMonitors_torn hh h (congrArg heartbeatMonitors heq)
      · next h =>
        refine collectGivenMonitors_torn hh h ?_
        split at heq <;> exact congrArg heartbeatMonitors heq
    | nil =>
      simp only [collectGivenMonitors_empty hh] at heq
      cases hl : takenFlags hm.logicMonitors with
      | cons b flags =>
        obtain rfl : b = true := by simpa [visited, hd, hh, hl] using hfirst
        split at heq <;>
          next h => exact collectGivenMonitors_torn hl h (congrArg logicMonitors heq)
      | nil => simp [visited, hd, hh, hl] at hfirst

theorem startInternal_ok (hok : hm.startInternal.1 = .ok ()) : ∀ b ∈ hm.visited, b = true := by
  rw [startInternal] at hok
  split at hok
  · cases hok
  · next hd =>
    split at hok
    · cases hok
    · next hh =>
      split at hok
      · cases hok
      · next hl =>
        simp only [visited, List.mem_append]
        rintro b ((hb | hb) | hb)
        · exact collectGivenMonitors_ok hd b hb
        · exact collectGivenMonitors_ok hh b hb
        · exact collectGivenMonitors_ok hl b hb

variable [Monitor Deadline Handle] [Monitor Heartbeat Handle] [Monitor Logic Handle]

theorem startInternal_taken (htaken : ∀ b ∈ hm.visited, b = true) :
    ∃ hm', hm.startInternal = (.ok (), hm') ∧
      hm'.thread = some ⟨handles hm.deadlineMonitors ++ handles hm.heartbeatMonitors ++
        handles hm.logicMonitors, hm.supervisorApiCycle, hm.internalDurationCycle⟩ := by
  have hlend := length_handles_le hm.deadlineMonitors
  have hlenh := length_handles_le hm.heartbeatMonitors
  have hroomd : ([] : List Handle).length + hm.deadlineMonitors.size ≤ hm.numMonitors := by
    simp only [numMonitors, List.length_nil]
    omega
  have hroomh : ([] ++ handles hm.deadlineMonitors).length + hm.heartbeatMonitors.size ≤
      hm.numMonitors := by
    simp only [numMonitors, List.nil_append]
    omega
  have hrooml : ([] ++ handles hm.deadlineMonitors ++ handles hm.heartbeatMonitors).length +
      hm.logicMonitors.size ≤ hm.numMonitors := by
    simp only [numMonitors, List.nil_append, List.length_append]
    omega
  obtain ⟨d, hd⟩ :=
    collectGivenMonitors_taken (fun b hb => htaken b (by simp [visited, hb])) hroomd
  obtain ⟨h, hh⟩ :=
    collectGivenMonitors_taken (fun b hb => htaken b (by simp [visited, hb])) hroomh
  obtain ⟨l, hl⟩ :=
    collectGivenMonitors_taken (fun b hb => htaken b (by simp [visited, hb])) hrooml
  simp only [startInternal, hd, hh, hl]
  exact ⟨_, rfl, rfl⟩

end Starting

/-! ### A refused start -/

section Whole
variable [Monitor M Handle] (p : MonitorTag → Prop) [DecidablePred p]

/-- Every container has its monitor or its handle. -/
def Whole (monitors : MonitorMap MonitorTag M Handle) : Prop := ∀ e ∈ monitors.entries, e.2 ≠ none

theorem handles_takeCalled (monitors : MonitorMap MonitorTag M Handle) :
    handles (takeCalled p monitors) = handles monitors := by
  simp only [handles, takeCalled, UnorderedMap.mapValues, List.filterMap_map]
  congr 1
  funext e
  by_cases hp : p e.1 <;> simp [hp]

theorem handles_containers (monitors : UnorderedMap MonitorTag M) :
    handles (containers monitors) = monitors.entries.map fun e => Monitor.getEvalHandle e.2 := by
  simp only [handles, containers, List.filterMap_map]
  exact congrFun List.filterMap_eq_map monitors.entries

theorem whole_takeCalled_containers (monitors : UnorderedMap MonitorTag M) :
    Whole (takeCalled p (containers monitors)) := by
  intro e he
  simp only [takeCalled, UnorderedMap.mapValues, containers, List.map_map, List.mem_map] at he
  obtain ⟨⟨tag, monitor⟩, -, rfl⟩ := he
  by_cases hp : p tag <;> simp [hp, take]

variable [DecidableEq MonitorTag]

theorem taken_takeCalled {monitors : MonitorMap MonitorTag M Handle} (hwhole : Whole monitors)
    (hasked : ∀ tag m, monitors.find? tag = some (some (.available m)) → p tag) :
    ∀ b ∈ takenFlags (takeCalled p monitors), b = true := by
  intro b hb
  simp only [takenFlags, takeCalled, UnorderedMap.mapValues, List.map_map, List.mem_map] at hb
  obtain ⟨⟨tag, c⟩, he, rfl⟩ := hb
  rcases c with _ | m | handle
  · exact absurd rfl (hwhole _ he)
  · have hp : p tag := hasked tag m (UnorderedMap.find?_of_mem_entries he)
    simp [hp, take, isTaken]
  · by_cases hp : p tag <;> simp [hp, take, isTaken]

end Whole

section Restart
variable [DecidableEq MonitorTag] [Monitor Deadline Handle] [Monitor Heartbeat Handle]
  [Monitor Logic Handle]

def Available (hm : HealthMonitor MonitorTag Deadline Heartbeat Logic Handle) :
    GetCall MonitorTag → Prop
  | .deadline tag => ∃ m, hm.deadlineMonitors.find? tag = some (some (.available m))
  | .heartbeat tag => ∃ m, hm.heartbeatMonitors.find? tag = some (some (.available m))
  | .logic tag => ∃ m, hm.logicMonitors.find? tag = some (some (.available m))

omit [DecidableEq MonitorTag] in
theorem Untorn.eq_of_refused {hm hm' : HealthMonitor MonitorTag Deadline Heartbeat Logic Handle}
    {e : HealthMonitorError} (huntorn : hm.Untorn)
    (hrefused : hm.startInternal = (.error e, hm')) : hm' = hm := by
  have hnottaken : ¬ ∀ b ∈ hm.visited, b = true := by
    intro htaken
    obtain ⟨started, hstart, -⟩ := startInternal_taken htaken
    rw [hstart] at hrefused
    cases hrefused
  have hhead := huntorn.resolve_left hnottaken
  cases hvisited : hm.visited with
  | nil => exact absurd (by simp [hvisited]) hnottaken
  | cons b flags =>
    have hfirst : hm.visited.head? = some false := by
      cases b with
      | false => simp [hvisited]
      | true => exact absurd (by simp [hvisited]) hhead
    rw [startInternal_first hfirst] at hrefused
    cases hrefused
    rfl

variable {deadline : UnorderedMap MonitorTag Deadline}
  {heartbeat : UnorderedMap MonitorTag Heartbeat} {logic : UnorderedMap MonitorTag Logic}
  {supervisorApiCycle internalProcessingCycle : Nat} {calls : List (GetCall MonitorTag)}
  {hm : HealthMonitor MonitorTag Deadline Heartbeat Logic Handle}

theorem taken_getAll
    (hhm : hm = (built deadline heartbeat logic supervisorApiCycle internalProcessingCycle).getAll
      calls) {calls' : List (GetCall MonitorTag)} (hasked : ∀ c, hm.Available c → c ∈ calls') :
    ∀ b ∈ (hm.getAll calls').visited, b = true := by
  have hd : Whole hm.deadlineMonitors := by
    rw [hhm, deadlineMonitors_getAll]
    exact whole_takeCalled_containers _ deadline
  have hh : Whole hm.heartbeatMonitors := by
    rw [hhm, heartbeatMonitors_getAll]
    exact whole_takeCalled_containers _ heartbeat
  have hl : Whole hm.logicMonitors := by
    rw [hhm, logicMonitors_getAll]
    exact whole_takeCalled_containers _ logic
  intro b hb
  rw [visited, deadlineMonitors_getAll, heartbeatMonitors_getAll, logicMonitors_getAll,
    List.mem_append, List.mem_append] at hb
  rcases hb with (hb | hb) | hb
  · exact taken_takeCalled _ hd (fun tag m hm => hasked (.deadline tag) ⟨m, hm⟩) b hb
  · exact taken_takeCalled _ hh (fun tag m hm => hasked (.heartbeat tag) ⟨m, hm⟩) b hb
  · exact taken_takeCalled _ hl (fun tag m hm => hasked (.logic tag) ⟨m, hm⟩) b hb

/-- A refused start can be repeated, exactly if no container has been emptied before the one that
refuses it. -/
theorem refused_start_changes_nothing
    (hhm : hm = (built deadline heartbeat logic supervisorApiCycle internalProcessingCycle).getAll
      calls) :
    hm.Untorn ↔ ∀ e hm', hm.startInternal = (.error e, hm') →
      hm' = hm ∧
        ∀ calls', (∀ c, hm'.Available c → c ∈ calls') →
          ∃ started, (hm'.getAll calls').startInternal = (.ok (), started) ∧
            started.thread = some
              ⟨(deadline.entries.map fun e => Monitor.getEvalHandle e.2) ++
                (heartbeat.entries.map fun e => Monitor.getEvalHandle e.2) ++
                (logic.entries.map fun e => Monitor.getEvalHandle e.2),
                supervisorApiCycle, internalProcessingCycle⟩ := by
  refine ⟨fun huntorn e hm' hrefused => ?_, fun h => ?_⟩
  swap
  · refine or_iff_not_imp_left.mpr fun hnottaken hfirst => startInternal_torn hfirst ?_
    cases hresult : hm.startInternal.1 with
    | ok => exact absurd (startInternal_ok hresult) hnottaken
    | error e => exact (h e _ (Prod.ext hresult rfl)).1
  obtain rfl := huntorn.eq_of_refused hrefused
  refine ⟨rfl, fun calls' hasked => ?_⟩
  obtain ⟨started, hstart, hthread⟩ := startInternal_taken (taken_getAll hhm hasked)
  refine ⟨started, hstart, ?_⟩
  have hagain := settings_getAll hm' calls'
  have hfirst := settings_getAll
    (built deadline heartbeat logic supervisorApiCycle internalProcessingCycle :
      HealthMonitor MonitorTag Deadline Heartbeat Logic Handle) calls
  rw [hthread, deadlineMonitors_getAll, heartbeatMonitors_getAll, logicMonitors_getAll,
    handles_takeCalled, handles_takeCalled, handles_takeCalled, hagain.1, hagain.2, hhm,
    deadlineMonitors_getAll, heartbeatMonitors_getAll, logicMonitors_getAll, handles_takeCalled,
    handles_takeCalled, handles_takeCalled, hfirst.1, hfirst.2]
  simp only [built, handles_containers]

end Restart

/-- In the samples a monitor is a number and its own handle. -/
instance : Monitor Nat Nat := ⟨id⟩

def sample : HealthMonitor Nat Nat Nat Nat Nat :=
  built ⟨[(1, 10), (2, 20)], by decide⟩ ⟨[], by decide⟩ ⟨[(3, 30)], by decide⟩ 500 100

theorem refused_start_changes_nothing_sample :
    (sample.getAll [.deadline 2]).Untorn ∧
    ∃ started,
      ((sample.getAll [.deadline 2]).getAll [.logic 3, .deadline 1]).startInternal =
        (.ok (), started) ∧
      started.thread = some ⟨[10, 20, 30], 500, 100⟩ := by
  have huntorn : (sample.getAll [.deadline 2]).Untorn := by decide
  have hrefused : (sample.getAll [.deadline 2]).startInternal =
      (.error .wrongState, sample.getAll [.deadline 2]) := startInternal_first (by decide)
  obtain ⟨-, hsecond⟩ := (refused_start_changes_nothing rfl).mp huntorn _ _ hrefused
  refine ⟨huntorn, hsecond [.logic 3, .deadline 1] ?_⟩
  rintro (tag | tag | tag) ⟨m, hm⟩ <;> have hmem := mem_of_lookup hm
  · change (tag, some (MonitorState.available m)) ∈
      [(1, some (.available 10)), (2, some (.taken 20))] at hmem
    simp_all
  · cases hmem
  · change (tag, some (MonitorState.available m)) ∈ [(3, some (.available 30))] at hmem
    simp_all

/-- The handle that was visited before the monitor that is not taken is lost. -/
theorem refused_start_loses_handle :
    ∃ hm', (sample.getAll [.deadline 1]).startInternal = (.error .wrongState, hm') ∧
      (sample.getAll [.deadline 1]).deadlineMonitors.find? 1 = some (some (.taken 10)) ∧
      hm'.deadlineMonitors.find? 1 = some none ∧
      (∀ c, hm'.Available c → c ∈ [.deadline 2, .logic 3]) ∧
      (hm'.getAll [.deadline 2, .logic 3]).startInternal.1 = .error .wrongState := by
  refine ⟨(sample.getAll [.deadline 1]).startInternal.2, rfl, rfl, rfl, ?_, rfl⟩
  rintro (tag | tag | tag) ⟨m, hm⟩ <;> have hmem := mem_of_lookup hm
  · change (tag, some (MonitorState.available m)) ∈
      [(1, none), (2, some (.available 20))] at hmem
    simp_all
  · cases hmem
  · change (tag, some (MonitorState.available m)) ∈ [(3, some (.available 30))] at hmem
    simp_all

end HealthMonitor

end LaunchManager
