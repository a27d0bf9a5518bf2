import LaunchManager.JobAccounting

/-!
# What the steps do to the components

The flags and the processes of the components, seen apart from the queues. A
step of the main thread leaves them alone, or notes what is running when it
starts a transition, or updates a run target, or deactivates a component that
terminated unexpectedly, or reports the target it has reached; everything else
is done by workers. Two facts follow: an active component stays active until it is
deactivated, and as long as no activation fails with its process alive, a process
that is alive is active or in the hands of a worker.
-/

namespace LaunchManager

open Function

set_option autoImplicit false

universe u

/-- The part of the daemon that belongs to the components, and what was reported. -/
structure Components (Key : Type u) where
  active : Key → Bool
  deactivations : Key → Nat
  alive : Key → Bool
  hasPid : Key → Bool
  workers : List (Worker Key)
  aliveAtStart : Key → Bool
  deactivationsAtStart : Key → Nat
  reports : List (Option Key × RunTargetActivationSource)

namespace Components
variable {Key : Type u}

def snapshot (v : Components Key) : Components Key :=
  { v with aliveAtStart := v.alive, deactivationsAtStart := v.deactivations }

/-- From `v` to `v'` no active component became inactive without having been deactivated. -/
structure Later (v v' : Components Key) : Prop where
  deactivations : ∀ k, v.deactivations k ≤ v'.deactivations k
  active : ∀ k, v.active k = true → v'.active k = true ∨ v.deactivations k < v'.deactivations k

def SameRecords (v v' : Components Key) : Prop :=
  (∀ k, v.hasPid k = true → v'.hasPid k = true) ∧ v'.aliveAtStart = v.aliveAtStart ∧
    v'.deactivationsAtStart = v.deactivationsAtStart

theorem Later.of_eq {v v' : Components Key} (ha : v'.active = v.active)
    (hd : v'.deactivations = v.deactivations) : Later v v' :=
  ⟨fun k => by rw [hd], fun k hk => .inl (by rw [ha]; exact hk)⟩

theorem Later.trans {v v' v'' : Components Key} (h : Later v v') (h' : Later v' v'') :
    Later v v'' := by
  refine ⟨fun k => (h.deactivations k).trans (h'.deactivations k), fun k hk => ?_⟩
  rcases h.active k hk with hk' | hlt
  · rcases h'.active k hk' with hk'' | hlt
    · exact .inl hk''
    · exact .inr ((h.deactivations k).trans_lt hlt)
  · exact .inr (hlt.trans_le (h'.deactivations k))

variable [DecidableEq Key]

def setActive (v : Components Key) (k : Key) (type : ComponentTaskType) : Components Key :=
  { v with
    active := Function.update v.active k type.flag
    deactivations :=
      match type with
      | .activate => v.deactivations
      | .deactivate => Function.update v.deactivations k (v.deactivations k + 1) }

theorem later_setActive (v : Components Key) (k : Key) (type : ComponentTaskType) :
    Later v (v.setActive k type) := by
  cases type with
  | activate =>
    refine ⟨fun _ => Nat.le_refl _, fun j hj => .inl ?_⟩
    by_cases hjk : j = k
    · simp [setActive, hjk, ComponentTaskType.flag]
    · simp only [setActive, update_of_ne hjk]
      exact hj
  | deactivate =>
    refine ⟨fun j => ?_, fun j hj => ?_⟩
    · by_cases hjk : j = k <;> simp [setActive, hjk]
    · by_cases hjk : j = k
      · exact .inr (by simp [setActive, hjk])
      · exact .inl (by simp [setActive, hjk, hj])

/-- Every live process has a stored identifier and belongs to a process component, which is
active unless a worker is at work on it. -/
def Attended (g : DependencyGraph Key Component) (v : Components Key) : Prop :=
  ∀ k, v.alive k = true → v.hasPid k = true ∧ g.value? k = some .processInfoNode ∧
    (v.active k = true ∨ ∃ w ∈ v.workers, w.begun = true ∧ w.task.component = k)

/-- A process that was alive at the last start has been deactivated unless it is still active. -/
def Watched (g : DependencyGraph Key Component) (v : Components Key) : Prop :=
  ∀ k, v.aliveAtStart k = true → v.hasPid k = true ∧ g.value? k = some .processInfoNode ∧
    v.deactivationsAtStart k ≤ v.deactivations k ∧
    (v.active k = true ∨ v.deactivationsAtStart k < v.deactivations k)

section Attended
variable {g : DependencyGraph Key Component} {v v' : Components Key}

theorem Attended.setActive (h : v.Attended g) {k : Key} (type : ComponentTaskType)
    (hk : v.alive k = true → ∃ w ∈ v.workers, w.begun = true ∧ w.task.component = k) :
    (v.setActive k type).Attended g := by
  intro j hj
  obtain ⟨hpid, hkind, hheld⟩ := h j hj
  refine ⟨hpid, hkind, ?_⟩
  by_cases hjk : j = k
  · subst hjk
    exact .inr (hk hj)
  · change Function.update v.active k type.flag j = true ∨ _
    rw [update_of_ne hjk]
    exact hheld

theorem Attended.exit (h : v.Attended g) (k : Key) :
    Attended g { v with alive := Function.update v.alive k false } := by
  intro j hj
  have hlive : Function.update v.alive k false j = true := hj
  by_cases hjk : j = k
  · simp [hjk] at hlive
  · rw [update_of_ne hjk] at hlive
    exact h j hlive

theorem Attended.erase (h : v.Attended g) {w : Worker Key}
    (hw : w.begun = true → v.alive w.task.component = true → v.active w.task.component = true) :
    Attended g { v with workers := v.workers.erase w } := by
  intro j hj
  obtain ⟨hpid, hkind, hheld⟩ := h j hj
  refine ⟨hpid, hkind, ?_⟩
  rcases hheld with hactive | ⟨w', hw', hbegun, hjob⟩
  · exact .inl hactive
  · by_cases heq : w' = w
    · subst heq
      subst hjob
      exact .inl (hw hbegun hj)
    · exact .inr ⟨w', (List.mem_erase_of_ne heq).mpr hw', hbegun, hjob⟩

theorem Attended.add (h : v.Attended g) (w : Worker Key) :
    Attended g { v with workers := w :: v.workers } := by
  intro j hj
  obtain ⟨hpid, hkind, hheld⟩ := h j hj
  refine ⟨hpid, hkind, hheld.imp_right fun ⟨w', hw', hjob⟩ => ?_⟩
  exact ⟨w', List.mem_cons_of_mem _ hw', hjob⟩

theorem Attended.launch (h : v.Attended g) {w : Worker Key} (hw : w ∈ v.workers)
    (hbegun : w.begun = true) (hkind : g.value? w.task.component = some .processInfoNode) :
    Attended g { v with
      alive := Function.update v.alive w.task.component true
      hasPid := Function.update v.hasPid w.task.component true } := by
  intro j hj
  by_cases hjk : j = w.task.component
  · subst hjk
    exact ⟨update_self .., hkind, .inr ⟨w, hw, hbegun, rfl⟩⟩
  · simp only [update_of_ne hjk] at hj ⊢
    exact h j hj

theorem Attended.watched_snapshot (h : v.Attended g) (hnone : v.workers = []) :
    v.snapshot.Watched g := by
  intro k hk
  obtain ⟨hpid, hkind, hheld⟩ := h k hk
  refine ⟨hpid, hkind, Nat.le_refl _, hheld.imp_right ?_⟩
  rintro ⟨w, hw, -⟩
  rw [hnone] at hw
  cases hw

theorem Watched.later (h : v.Watched g) (hl : Later v v') (hrec : SameRecords v v') :
    v'.Watched g := by
  obtain ⟨hpid, hstart, hcount⟩ := hrec
  intro k hk
  rw [hstart] at hk
  obtain ⟨hp, hkind, hle, hheld⟩ := h k hk
  rw [hcount]
  refine ⟨hpid k hp, hkind, hle.trans (hl.deactivations k), ?_⟩
  rcases hheld with hactive | hlt
  · exact (hl.active k hactive).imp_right hle.trans_lt
  · exact .inr (hlt.trans_le (hl.deactivations k))

end Attended

end Components

namespace Daemon
variable {Key : Type u}

def components (s : Daemon Key) : Components Key where
  active := s.graph.active
  deactivations := s.graph.deactivations
  alive := s.alive
  hasPid := s.hasPid
  workers := s.workers
  aliveAtStart := s.aliveAtStart
  deactivationsAtStart := s.deactivationsAtStart
  reports := s.graph.reports

def SameFlags (G G' : Graph Key) : Prop :=
  G'.active = G.active ∧ G'.deactivations = G.deactivations ∧ G'.reports = G.reports

theorem SameFlags.components_eq {s : Daemon Key} {G : Graph Key} (h : SameFlags s.graph G) :
    components { s with graph := G } = s.components := by
  simp [components, h.1, h.2.1, h.2.2]

theorem workers_of_outstanding {s : Daemon Key} (h : s.outstanding = []) : s.workers = [] := by
  simp only [outstanding, List.append_eq_nil_iff, List.map_eq_nil_iff] at h
  exact h.2.1

theorem cancel_flags (G : Graph Key) : SameFlags G G.cancel := by
  unfold Graph.cancel
  split <;> exact ⟨rfl, rfl, rfl⟩

theorem Requested.flags {G G' : Graph Key} (h : Requested G G') : SameFlags G G' := by
  obtain ⟨pending, rfl | ⟨-, rfl⟩⟩ := h
  · exact ⟨rfl, rfl, rfl⟩
  · exact cancel_flags { G with pending := pending }

variable [DecidableEq Key]

section Main
variable {g : DependencyGraph Key Component} {s s' : Daemon Key} {c : Config Key} {rt : Key}
variable {source : RunTargetActivationSource} {handler : Bool}

theorem Starts.components (h : Starts s rt source handler s') :
    s'.components = s.components.snapshot := by
  cases h
  rfl

theorem nodeExecuted_flags {G : Graph Key} {k : Key} {result : RequestResult} {r : Graph Key × Bool}
    (h : G.nodeExecuted k result = some r) : SameFlags G r.1 := by
  unfold Graph.nodeExecuted at h
  extract_lets counted G₁ at h
  have hflags : SameFlags G G₁ := by
    unfold G₁
    split <;> exact ⟨rfl, rfl, rfl⟩
  split at h
  · obtain ⟨t, -, rfl⟩ := Option.map_eq_some_iff.mp h
    exact hflags
  · split at h <;> cases h <;> exact hflags

end Main

section Steps
variable {g : DependencyGraph Key Component} {s s' : Daemon Key} {c : Config Key} {a : Act Key}

inductive ComponentMoves (g : DependencyGraph Key Component) (a : Act Key) (s : Daemon Key) :
    Components Key → Prop where
  | none : ComponentMoves g a s s.components
  | start (hout : s.outstanding = [] ∨
      a = .waitOver ∧ s.stage = .cancelling ∧ s.graph.state = .aborting) :
      ComponentMoves g a s s.components.snapshot
  | runTarget {k : Key} {type : ComponentTaskType} (hk : g.value? k = some .runTarget) :
      ComponentMoves g a s (s.components.setActive k type)
  | terminated {k : Key} : ComponentMoves g a s
      { s.components.setActive k .deactivate with alive := Function.update s.alive k false }
  | report {source : RunTargetActivationSource} (hst : s.graph.state = .inTransition)
      (hfin : s.graph.transition.isFinished = true) : ComponentMoves g a s
      { s.components with reports := (s.graph.requestedState, source) :: s.graph.reports }
  | take {task : ComponentTask Key} :
      ComponentMoves g a s { s.components with workers := ⟨task, false⟩ :: s.workers }
  | work {w : Worker Key} (hbegun : w.begun = false) : ComponentMoves g a s
      { s.components with workers := { w with begun := true } :: s.workers.erase w }
  | launch {w : Worker Key} (hw : w ∈ s.workers) (hbegun : w.begun = true) :
      ComponentMoves g a s { s.components with
        alive := Function.update s.alive w.task.component true
        hasPid := Function.update s.hasPid w.task.component true }
  | setFlag {w : Worker Key} (hw : w ∈ s.workers) (hbegun : w.begun = true) :
      ComponentMoves g a s (s.components.setActive w.task.component w.task.type)
  | leave {w : Worker Key} (hw : (∃ timeout, a = .fail w timeout) ∨
      (w.begun = true → s.alive w.task.component = true →
        s.graph.active w.task.component = true)) :
      ComponentMoves g a s { s.components with workers := s.workers.erase w }
  | exit {k : Key} :
      ComponentMoves g a s { s.components with alive := Function.update s.alive k false }

theorem component_moves (h : Inv g s) (hok : pushesSettle s a) (hs : step c s a = some s') :
    ComponentMoves g a s s'.components := by
  cases moves_of_step hs with
  | initial hstage hmain hs =>
    exact hs.components ▸ .start (.inl ((h.quiet hmain).mpr (.inl (h.initial hstage))))
  | completion _ _ _ _ hexec => exact (nodeExecuted_flags hexec).components_eq ▸ .none
  | terminated _ _ _ _ hG =>
    subst hG
    simp only [components]
    split <;> exact .terminated
  | @heeded n => exact (heeded_requested c s n).flags.components_eq ▸ .none
  | pending hmain _ hst _ hs =>
    refine hs.components ▸ .start (.inl ((h.quiet hmain).mpr ?_))
    exact hst.elim Or.inr fun hsucc => .inl hsucc.1
  | fallback hmain _ hst _ hs =>
    exact hs.components ▸ .start (.inl ((h.quiet hmain).mpr (.inr hst)))
  | shutdown =>
    unfold shutdown
    split
    · exact .none
    · exact (cancel_flags s.graph).components_eq ▸ .none
  | off hmain hstage hcan hs =>
    exact hs.components ▸ .start (.inl ((h.quiet hmain).mpr (h.rest_of_canSetState hstage hcan)))
  | noOff _ hstage hcan => exact .start (.inr ⟨rfl, hstage, Graph.aborting_of_canSetState hcan⟩)
  | ended => split <;> exact .none
  | finished hmain =>
    unfold finish
    split
    · rename_i hfin
      exact .report (h.busy (by rw [hmain]; simp)) hfin
    · exact .none
  | redirected hmain _ hundef =>
    exact absurd hundef (state_finish (h.busy (by rw [hmain]; simp)))
  | updated _ _ hkind => exact .runTarget ((value?_of_kind h.shape _).symm.trans hkind)
  | unknown | passed | taken | queued | dropped | pushed | pushTimeout | post => exact .none
  | pushFailed => exact absurd rfl hok
  | take => exact .take
  | skip _ hbegun => exact .leave (.inr fun hb => absurd (hbegun.symm.trans hb) (by simp))
  | work _ hbegun => exact .work hbegun
  | launch hw hbegun => exact .launch hw hbegun
  | setFlag hw hbegun => exact .setFlag hw hbegun
  | @succeed w _ hflag hdead =>
    refine .leave (.inr fun _ hlive => ?_)
    cases htype : w.task.type with
    | activate => rw [hflag, htype]; rfl
    | deactivate => exact absurd ((hdead htype).symm.trans hlive) (by simp)
  | fail => exact .leave (.inl ⟨_, rfl⟩)
  | exit => exact .exit

theorem step_later (h : Inv g s) (hok : pushesSettle s a) (hs : step c s a = some s') :
    s.components.Later s'.components := by
  have hm := component_moves h hok hs
  generalize s'.components = v' at hm
  cases hm with
  | runTarget | setFlag => exact Components.later_setActive ..
  | @terminated k =>
    obtain ⟨hd, ha⟩ := Components.later_setActive s.components k .deactivate
    exact ⟨hd, ha⟩
  | _ => exact .of_eq rfl rfl

theorem step_attended (h : Inv g s) (hok : pushesSettle s a) (hs : step c s a = some s')
    (hdead : ∀ w timeout, a = .fail w timeout → s.alive w.task.component = false)
    (hat : s.components.Attended g) : s'.components.Attended g := by
  have hm := component_moves h hok hs
  generalize s'.components = v' at hm
  cases hm with
  | none | start | report => exact hat
  | @runTarget k type hk =>
    refine hat.setActive type fun hlive => ?_
    have hkind := (hat k hlive).2.1
    rw [hk] at hkind
    cases hkind
  | @terminated k =>
    -- The process has ended before its component is deactivated.
    have hdead : (Components.setActive { s.components with
        alive := Function.update s.alive k false } k .deactivate).Attended g := by
      refine (hat.exit k).setActive .deactivate fun hlive => ?_
      have hlive' : Function.update s.alive k false k = true := hlive
      simp at hlive'
    exact hdead
  | take => exact hat.add _
  | work hbegun => exact (hat.erase fun hb => absurd (hbegun.symm.trans hb) (by simp)).add _
  | launch hw hbegun =>
    have hmem := List.mem_append_right s.main.inHand (mem_outstanding_of_worker hw)
    exact hat.launch hw hbegun (h.tasks _ hmem).2.2
  | @setFlag w hw hbegun => exact hat.setActive _ fun _ => ⟨w, hw, hbegun, rfl⟩
  | leave hw =>
    refine hat.erase (hw.elim (fun ⟨timeout, ha⟩ _ hlive => ?_) id)
    exact absurd ((hdead _ timeout ha).symm.trans hlive) (by simp)
  | exit => exact hat.exit _

theorem step_records (h : Inv g s) (hok : pushesSettle s a) (hs : step c s a = some s') :
    s.components.SameRecords s'.components ∨
      (s.outstanding = [] ∨ a = .waitOver ∧ s.stage = .cancelling ∧ s.graph.state = .aborting) ∧
        s'.components = s.components.snapshot := by
  have hm := component_moves h hok hs
  generalize s'.components = v' at hm
  cases hm with
  | start hout => exact .inr ⟨hout, rfl⟩
  | @launch w =>
    refine .inl ⟨fun k hk => ?_, rfl, rfl⟩
    by_cases hkw : k = w.task.component
    · simp [hkw]
    · simp only [update_of_ne hkw]
      exact hk
  | _ => exact .inl ⟨fun _ => id, rfl, rfl⟩

theorem step_watched (h : Inv g s) (hok : pushesSettle s a) (hs : step c s a = some s')
    (hsettled : a = .waitOver → s.stage = .cancelling → s.graph.state ≠ .aborting)
    (hat : s.components.Attended g) (hw : s.components.Watched g) : s'.components.Watched g := by
  obtain hrec | ⟨hout | ⟨ha, hstage, hab⟩, hsnap⟩ := step_records h hok hs
  · exact hw.later (step_later h hok hs) hrec
  · rw [hsnap]
    exact hat.watched_snapshot (workers_of_outstanding hout)
  · exact absurd hab (hsettled ha hstage)

end Steps

end Daemon

end LaunchManager
