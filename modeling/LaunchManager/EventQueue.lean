import LaunchManager.PendingRequest

/-!
# The event queue

The queue between the threads and the main thread holds three events for each
component and drops what does not fit. Clients put their requests into the same
queue and wait until the main thread has completed them. Requests are identified
by their position in the sequence of all events.
-/

namespace LaunchManager

open Option List

set_option autoImplicit false

universe u

inductive ClientRequest (Key : Type u) where
  | getActiveRunTarget
  | setRequestedRunTarget (runTarget : Key)
  deriving DecidableEq, Repr

variable {Key : Type u}

def ClientRequest.notice : ClientRequest Key → Notice Key
  | .getActiveRunTarget => .getActiveRunTarget
  | .setRequestedRunTarget runTarget => .setRequestedRunTarget runTarget

def Queued.ofClient : Queued Key → Bool
  | .notice .getActiveRunTarget | .notice (.setRequestedRunTarget _) => true
  | .completion _ _ | .notice (.unexpectedTermination _) | .notice (.supervisionFailure _) => false

def Daemon.Act.pushes : Daemon.Act Key → Option (Queued Key)
  | .skip w => some (.completion w.task .skipped)
  | .succeed w => some (.completion w.task .succeeded)
  | .fail w timeout => some (.completion w.task (.failed timeout))
  | .post n => some (.notice n)
  | .startInitialTransition _ | .handleEvent | .processGroupHandler | .shutdown | .waitOver
  | .drain | .pushed | .pushTimeout | .pushFailed | .take | .work _ | .launch _ | .setFlag _
  | .exit _ => none

def Daemon.Act.pops : Daemon.Act Key → Bool
  | .handleEvent => true
  | _ => false

/-- The daemon with its bounded event queue. The last four fields are history variables: how many
events were popped, which requests were accepted by the queue and which were completed, and the
component events that were dropped because the queue was full. -/
structure Service (Key : Type u) where
  daemon : Daemon Key
  capacity : Nat
  stopped : Bool := false
  overflow : Bool := false
  popped : Nat := 0
  accepted : List Nat := []
  completed : List Nat := []
  lost : List (Queued Key) := []

namespace Service

inductive Act (Key : Type u) where
  | daemon (a : Daemon.Act Key)
  | request (r : ClientRequest Key)
  | deinit

/-- `MpscBoundedQueue` makes room for one event at least. -/
def capacityFor (components : Nat) : Nat := if components * 3 = 0 then 1 else components * 3

variable [DecidableEq Key]

/-- Terminations and supervision failures are reported for processes. -/
def reportable (d : Daemon Key) : Daemon.Act Key → Bool
  | .post (.unexpectedTermination k) | .post (.supervisionFailure k) =>
    d.graph.kind k == some .processInfoNode
  | .post .getActiveRunTarget | .post (.setRequestedRunTarget _) => false
  | _ => true

/-- The main loop completes the slot of a request; the shutdown passes over it. -/
def hear (s : Service Key) : Service Key :=
  { s with
    popped := s.popped + 1
    completed :=
      if s.daemon.stage = .running ∧ s.daemon.events.head?.any Queued.ofClient = true then
        s.popped :: s.completed
      else s.completed }

/-- The state after a daemon step, with what the event queue makes of the pushed event. -/
def enqueue (s : Service Key) (d : Daemon Key) : Option (Queued Key) → Service Key
  | none => { s with daemon := d }
  | some q =>
    if s.stopped then { s with daemon := { d with events := s.daemon.events } }
    else if s.daemon.events.length < s.capacity then { s with daemon := d }
    else { s with
      daemon := { d with events := s.daemon.events }, overflow := true, lost := q :: s.lost }

/-- `deinitialize` stops the queue after the main thread has left its loops. -/
def step (c : Config Key) (s : Service Key) : Act Key → Option (Service Key)
  | .daemon a =>
    if reportable s.daemon a = true ∧ (s.stopped = true → a.ofMain = false) then
      (Daemon.step c s.daemon a).map fun d =>
        (if a.pops then s.hear else s).enqueue d a.pushes
    else none
  | .request r =>
    if s.stopped then some s
    else if s.daemon.events.length < s.capacity then
      some { s with
        daemon := { s.daemon with events := s.daemon.events ++ [.notice r.notice] }
        accepted := (s.popped + s.daemon.events.length) :: s.accepted }
    else some { s with overflow := true }
  | .deinit =>
    if s.daemon.stage = .ended ∧ s.stopped = false then some { s with stopped := true } else none

def processes (g : DependencyGraph Key Component) : List Key :=
  g.keys.filter fun k => g.value? k == some .processInfoNode

def start [Inhabited Key] (g : DependencyGraph Key Component) : Service Key where
  daemon := Daemon.init g
  capacity := capacityFor (processes g).length

end Service

namespace Daemon
variable [DecidableEq Key]

section Frames
variable {c : Config Key} {s s' : Daemon Key} {a : Act Key} {rt : Key}
variable {source : RunTargetActivationSource} {handler : Bool}

theorem Starts.queues (h : Starts s rt source handler s') :
    s'.outstanding = s.outstanding ∧ s'.events = s.events ∧ s'.workers = s.workers := by
  cases h
  exact ⟨rfl, rfl, rfl⟩

theorem Starts.join (h : Starts s rt source handler s') (workers : List (Worker Key)) :
    Starts { s with workers } rt source handler { s' with workers } := by
  cases h with
  | intro hvalid hcreate => exact .intro hvalid hcreate

theorem shutdown_join (c : Config Key) (s : Daemon Key) (workers : List (Worker Key)) :
    ({ s with workers } : Daemon Key).shutdown c = { s.shutdown c with workers } := by
  simp only [shutdown]
  split <;> rfl

/-- More workers, which may never finish their jobs, do not hinder the others. -/
theorem Moves.join {workers : List (Worker Key)} (hm : Moves c s a s')
    (hsub : s.workers.Subperm workers) : ∃ workers', s'.workers.Subperm workers' ∧
      Moves c { s with workers } a { s' with workers := workers' } := by
  cases hm with
  | initial hstage hmain h =>
    exact ⟨_, h.queues.2.2 ▸ hsub, .initial hstage hmain (h.join workers)⟩
  | pending hmain hstage hst hpending h =>
    exact ⟨_, h.queues.2.2 ▸ hsub, .pending hmain hstage hst hpending (h.join workers)⟩
  | fallback hmain hstage hst hpending h =>
    exact ⟨_, h.queues.2.2 ▸ hsub, .fallback hmain hstage hst hpending (h.join workers)⟩
  | off hmain hstage hcan h =>
    exact ⟨_, h.queues.2.2 ▸ hsub, .off hmain hstage hcan (h.join workers)⟩
  | redirected hmain hnext hst h =>
    exact ⟨_, h.queues.2.2 ▸ hsub, .redirected hmain hnext hst (h.join workers)⟩
  | shutdown hmain hstage =>
    refine ⟨workers, ?_, shutdown_join c s workers ▸ .shutdown hmain hstage⟩
    unfold Daemon.shutdown
    split <;> exact hsub
  | ended hmain hstage =>
    refine ⟨workers, ?_, ?_⟩
    · split <;> exact hsub
    · convert Moves.ended (c := c) (s := { s with workers }) hmain hstage using 1
      dsimp only
      split <;> rfl
  | unknown hstage hmain hvalid => exact ⟨workers, hsub, .unknown hstage hmain hvalid⟩
  | completion hev hmain hinitial hended h =>
    exact ⟨workers, hsub, .completion hev hmain hinitial hended h⟩
  | terminated hev hmain hinitial hended hG =>
    exact ⟨workers, hsub, .terminated hev hmain hinitial hended hG⟩
  | heeded hev hmain hinitial hended hn =>
    exact ⟨workers, hsub, .heeded hev hmain hinitial hended hn⟩
  | passed hmain hstage => exact ⟨workers, hsub, .passed hmain hstage⟩
  | taken hmain hstage hst hpending => exact ⟨workers, hsub, .taken hmain hstage hst hpending⟩
  | noOff hmain hstage hcan => exact ⟨workers, hsub, .noOff hmain hstage hcan⟩
  | finished hmain hnext => exact ⟨workers, hsub, .finished hmain hnext⟩
  | updated hmain hnext hkind hreport =>
    exact ⟨workers, hsub, .updated hmain hnext hkind hreport⟩
  | queued hmain hnext hkind hst => exact ⟨workers, hsub, .queued hmain hnext hkind hst⟩
  | dropped hmain hnext hkind hst => exact ⟨workers, hsub, .dropped hmain hnext hkind hst⟩
  | pushed hmain => exact ⟨workers, hsub, .pushed hmain⟩
  | pushTimeout hmain => exact ⟨workers, hsub, .pushTimeout hmain⟩
  | pushFailed hmain => exact ⟨workers, hsub, .pushFailed hmain⟩
  | take hq => exact ⟨_, (subperm_cons _).mpr hsub, .take hq⟩
  | skip hw hbegun hstop => exact ⟨_, hsub.erase _, .skip (hsub.subset hw) hbegun hstop⟩
  | work hw hbegun =>
    exact ⟨_, (subperm_cons _).mpr (hsub.erase _), .work (hsub.subset hw) hbegun⟩
  | launch hw hbegun => exact ⟨workers, hsub, .launch (hsub.subset hw) hbegun⟩
  | setFlag hw hbegun => exact ⟨workers, hsub, .setFlag (hsub.subset hw) hbegun⟩
  | succeed hw hflag hdead => exact ⟨_, hsub.erase _, .succeed (hsub.subset hw) hflag hdead⟩
  | fail hw => exact ⟨_, hsub.erase _, .fail (hsub.subset hw)⟩
  | exit => exact ⟨workers, hsub, .exit⟩
  | post => exact ⟨workers, hsub, .post⟩

theorem step_events (hs : step c s a = some s') :
    s'.events = (if a.pops then s.events.tail else s.events) ++ a.pushes.toList := by
  cases moves_of_step hs with
  | skip | succeed | fail | post => rfl
  | initial _ _ h | pending _ _ _ _ h | fallback _ _ _ _ h | off _ _ _ h | redirected _ _ _ h =>
    exact h.queues.2.1.trans (append_nil _).symm
  | completion hev | terminated hev | heeded hev =>
    exact (congrArg List.tail hev).symm.trans (append_nil _).symm
  | shutdown =>
    unfold shutdown
    split <;> exact (append_nil _).symm
  | ended => split <;> exact (append_nil _).symm
  | _ => exact (append_nil _).symm

end Frames

section Distinct
variable {g : DependencyGraph Key Component} {c : Config Key} {s s' : Daemon Key} {a : Act Key}

def Distinct (s : Daemon Key) : Prop := (s.outstanding.map ComponentTask.component).Nodup

theorem outstanding_subperm (hm : Moves c s a s') : s'.outstanding.Subperm s.outstanding ∨
    ∃ task handler, s.main = .pushing task handler ∧ s' = { s with
      jobQueue := s.jobQueue ++ [task], main := .draining handler
      graph := { s.graph with jobsInProgress := s.graph.jobsInProgress + 1 } } := by
  cases hm with
  | pushed hmain => exact .inr ⟨_, _, hmain, rfl⟩
  | initial _ _ h | pending _ _ _ _ h | fallback _ _ _ _ h | off _ _ _ h | redirected _ _ _ h =>
    exact .inl (List.Perm.of_eq h.queues.1).subperm
  | completion hev =>
    exact .inl ((sublist_cons_self ..).subperm.trans (outstanding_completion hev).symm.subperm)
  | terminated hev | heeded hev =>
    exact .inl (List.Perm.of_eq (outstanding_notice hev).symm).subperm
  | shutdown =>
    unfold shutdown
    split <;> exact .inl (List.Subperm.refl _)
  | ended => split <;> exact .inl (List.Subperm.refl _)
  | take hq => exact .inl (outstanding_take hq).subperm
  | skip hw | succeed hw | fail hw => exact .inl (outstanding_complete hw _).subperm
  | work hw => exact .inl (outstanding_work hw).subperm
  | post => exact .inl (List.Perm.of_eq (outstanding_post s _)).subperm
  | _ => exact .inl (List.Subperm.refl _)

theorem outstanding_step {P : List (ComponentTask Key) → Prop}
    (hsub : ∀ {jobs jobs'}, jobs'.Subperm jobs → P jobs → P jobs')
    (hrunning : ∀ {target active₀ stopped started}, Live g s' target active₀ stopped started →
      P s'.outstanding)
    (h : P s.outstanding) (hsound : Sound g s) (hsound' : Sound g s')
    (hm : Moves c s a s') : P s'.outstanding := by
  rcases outstanding_subperm hm with hless | ⟨task, handler, hmain, rfl⟩
  · exact hsub hless h
  · have hst : s.graph.state = .inTransition := by
      rcases hsound with hinv | ⟨_, _, _, _, _, habandoned⟩
      · exact hinv.busy (by rw [hmain]; simp)
      · obtain ⟨handler', hdrain⟩ := habandoned.main
        rw [hmain] at hdrain
        cases hdrain
    rcases hsound' with hinv | ⟨_, _, _, _, _, habandoned⟩
    · obtain ⟨target, active₀, stopped, started, hlive⟩ := hinv.live hst
      exact hrunning hlive
    · have hundef : s.graph.state = .undefinedState := habandoned.state
      rw [hst] at hundef
      cases hundef

theorem Distinct.moves (h : s.Distinct) (hsound : Sound g s) (hsound' : Sound g s')
    (hm : Moves c s a s') : s'.Distinct := by
  refine outstanding_step (P := fun jobs => (jobs.map ComponentTask.component).Nodup)
    ?_ (fun hlive => ?_) h hsound hsound' hm
  · rintro jobs jobs' ⟨_, hperm, hsublist⟩ hjobs
    exact (hperm.map _).nodup_iff.mp (hjobs.sublist (hsublist.map _))
  · have hnodup := hlive.inPhase.flying_nodup
    rw [inHand, map_append, nodup_append] at hnodup
    exact hnodup.2.1

theorem flag_injective {x y : ComponentTaskType} (h : x.flag = y.flag) : x = y := by
  cases x <;> cases y <;> first | rfl | cases h

/-- No component has two jobs at a time, and activations and deactivations are not mixed. -/
theorem jobs_exclusive [Inhabited Key] (hg : g.WellFormed) (hac : g.Acyclic)
    (hrun : Runs.Run (Daemon.step c) failsAlone (init g) s) :
    (s.outstanding.map ComponentTask.component).Nodup ∧
      ∀ t ∈ s.outstanding, ∀ t' ∈ s.outstanding, t.type = t'.type := by
  suffices h : Sound g s ∧ s.Distinct ∧ ∀ t ∈ s.outstanding, ∀ t' ∈ s.outstanding,
      t.type = t'.type from h.2
  refine hrun.invariant (fun s => Sound g s ∧ s.Distinct ∧
    ∀ t ∈ s.outstanding, ∀ t' ∈ s.outstanding, t.type = t'.type) ?_ ?_
  · rintro s s' a ⟨hsound, hdistinct, htypes⟩ hok hs
    have hm := moves_of_step hs
    have hsound' := hsound.moves hg hac hok hm
    refine ⟨hsound', hdistinct.moves hsound hsound' hm, ?_⟩
    refine outstanding_step (P := fun jobs => ∀ t ∈ jobs, ∀ t' ∈ jobs, t.type = t'.type)
      (fun hsub h t ht t' ht' => h t (hsub.subset ht) t' (hsub.subset ht'))
      (fun hlive t ht t' ht' => ?_) htypes hsound hsound' hm
    exact flag_injective ((hlive.told t (mem_append_right _ ht)).trans
      (hlive.told t' (mem_append_right _ ht')).symm)
  · exact ⟨run_sound (c := c) hg hac (.refl _), nodup_nil, fun t ht => absurd ht not_mem_nil⟩

theorem jobs_exclusive_cancelled :
    ∃ s : Daemon Nat, s.graph.state = .aborting ∧
      s.outstanding.map ComponentTask.component = [1, 0] ∧
      ∀ t ∈ s.outstanding, ∀ t' ∈ s.outstanding, t.type = t'.type := by
  obtain ⟨s, hrun, hstate, hjobs⟩ := Runs.Run.exists_of_exec (step ⟨3, 4⟩) failsAlone
    (init pairGraph) (fun s => s.graph.state = .aborting ∧
      s.outstanding.map ComponentTask.component = [1, 0])
    [.startInitialTransition 2, .drain, .pushed, .drain, .pushed, .drain, .take, .shutdown]
    (by decide +kernel)
  exact ⟨s, hstate, hjobs, (jobs_exclusive pairGraph_wellFormed
    (DependencyGraph.acyclic_of_rank id (by decide +kernel)) hrun).2⟩

theorem Sound.component_mem (h : Sound g s) {t : ComponentTask Key} (ht : t ∈ s.outstanding) :
    g.value? t.component = some .processInfoNode := by
  rcases h with hinv | ⟨_, _, _, _, _, habandoned⟩
  · exact (hinv.tasks t (mem_append_right _ ht)).2.2
  · rw [habandoned.outstanding] at ht
    cases ht

end Distinct

end Daemon

namespace Queued

def completed? : Queued Key → Option Key
  | .completion t _ => some t.component
  | .notice _ => none

def terminated? : Queued Key → Option Key
  | .notice (.unexpectedTermination k) => some k
  | _ => none

def failed? : Queued Key → Option Key
  | .notice (.supervisionFailure k) => some k
  | _ => none

variable {events : List (Queued Key)}

theorem length_eq_kinds (h : ∀ e ∈ events, e.ofClient = false) :
    events.length = (events.filterMap completed?).length + (events.filterMap terminated?).length +
      (events.filterMap failed?).length := by
  induction events with
  | nil => rfl
  | cons e events ih =>
    have htail := ih fun e' he' => h e' (mem_cons_of_mem _ he')
    have hhead := h e mem_cons_self
    cases e with
    | completion t o =>
      simp only [filterMap_cons, completed?, terminated?, failed?, length_cons]
      omega
    | notice n =>
      cases n with
      | unexpectedTermination k | supervisionFailure k =>
        simp only [filterMap_cons, completed?, terminated?, failed?, length_cons]
        omega
      | getActiveRunTarget | setRequestedRunTarget rt => cases hhead

theorem filterMap_completed? (events : List (Queued Key)) :
    events.filterMap completed? = (events.filterMap task?).map ComponentTask.component := by
  rw [map_filterMap]
  congr 1
  funext q
  cases q <;> rfl

theorem mem_of_terminated? {k : Key}
    (h : k ∈ events.filterMap terminated?) : notice (.unexpectedTermination k) ∈ events := by
  obtain ⟨q, hq, hk⟩ := mem_filterMap.mp h
  rcases q with _ | (_ | _ | _ | _) <;> cases hk
  exact hq

theorem mem_of_failed? {k : Key}
    (h : k ∈ events.filterMap failed?) : notice (.supervisionFailure k) ∈ events := by
  obtain ⟨q, hq, hk⟩ := mem_filterMap.mp h
  rcases q with _ | (_ | _ | _ | _) <;> cases hk
  exact hq

end Queued

namespace Service
variable [DecidableEq Key]

theorem pushes_of_reportable {d : Daemon Key} {a : Daemon.Act Key} {q : Queued Key}
    (hreport : reportable d a = true) (hq : a.pushes = some q) :
    q.ofClient = false ∧ a.pops = false ∧
      ∀ k, q = .notice (.unexpectedTermination k) ∨ q = .notice (.supervisionFailure k) →
        d.graph.kind k = some .processInfoNode := by
  cases a with
  | skip w | succeed w | fail w timeout =>
    cases hq
    refine ⟨rfl, rfl, ?_⟩
    rintro k (hk | hk) <;> cases hk
  | post n =>
    cases hq
    cases n with
    | unexpectedTermination j | supervisionFailure j =>
      refine ⟨rfl, rfl, ?_⟩
      rintro k (hk | hk) <;> cases hk
      exact beq_iff_eq.mp hreport
    | getActiveRunTarget | setRequestedRunTarget rt => cases hreport
  | _ => cases hq

section Capacity
variable {g : DependencyGraph Key Component} {c : Config Key} {s s' : Service Key} {a : Act Key}

def failsAlone (s : Service Key) : Act Key → Prop
  | .daemon a => Daemon.failsAlone s.daemon a
  | .request _ | .deinit => True

instance (s : Service Key) : ∀ a : Act Key, Decidable (s.failsAlone a)
  | .daemon a => inferInstanceAs (Decidable (Daemon.failsAlone s.daemon a))
  | .request _ | .deinit => isTrue trivial

/-- When a component event is pushed, no request of a client is queued, and with the event the
queue holds at most one termination and one supervision failure of each component. -/
def Roomy (s : Service Key) : Act Key → Prop
  | .daemon a => ∀ q ∈ a.pushes, (∀ e ∈ s.daemon.events, e.ofClient = false) ∧
      ((s.daemon.events ++ [q]).filterMap Queued.terminated?).Nodup ∧
      ((s.daemon.events ++ [q]).filterMap Queued.failed?).Nodup
  | .request _ | .deinit => True

instance (s : Service Key) : ∀ a : Act Key, Decidable (s.Roomy a)
  | .daemon a => inferInstanceAs (Decidable (∀ q ∈ a.pushes, _))
  | .request _ | .deinit => isTrue trivial

theorem mem_processes {k : Key} (h : g.value? k = some .processInfoNode) : k ∈ processes g :=
  mem_filter.mpr ⟨Daemon.mem_keys_of_value? h, beq_iff_eq.mpr h⟩

def Noticed (d : Daemon Key) (k : Key) : Prop :=
  .notice (.unexpectedTermination k) ∈ d.events ∨ .notice (.supervisionFailure k) ∈ d.events

/-- The daemon is sound and has one job in flight for a component, when the workers whose
completion was dropped are counted as still at work. Notices are about processes. -/
structure Settled (g : DependencyGraph Key Component) (d : Daemon Key) : Prop where
  counted : ∃ workers, d.workers.Subperm workers ∧ ({ d with workers } : Daemon Key).Sound g ∧
    ({ d with workers } : Daemon Key).Distinct
  noticed : ∀ k, Noticed d k → k ∈ processes g

section Settled
variable {d d' : Daemon Key} {a : Daemon.Act Key} {q : Queued Key}

theorem Settled.step (h : Settled g d) (hg : g.WellFormed) (hac : g.Acyclic)
    (hok : Daemon.failsAlone d a) (hs : Daemon.step c d a = some d')
    (hpush : ∀ q ∈ a.pushes, ∀ k,
      q = .notice (.unexpectedTermination k) ∨ q = .notice (.supervisionFailure k) →
        d.graph.kind k = some .processInfoNode) : Settled g d' := by
  obtain ⟨workers, hsub, hsound, hdistinct⟩ := h.counted
  have hm := Daemon.moves_of_step hs
  obtain ⟨workers', hsub', hjoined⟩ := hm.join hsub
  have hsound' := hsound.moves hg hac (by cases a <;> exact hok) hjoined
  refine ⟨⟨workers', hsub', hsound', hdistinct.moves hsound hsound' hjoined⟩, fun k hk => ?_⟩
  have hmem : ∀ q, q ∈ d'.events → q ∈ d.events ∨ q ∈ a.pushes := by
    intro q hq
    rw [Daemon.step_events hs, mem_append, mem_toList] at hq
    refine hq.imp_left fun hq => ?_
    split at hq
    · exact mem_of_mem_tail hq
    · exact hq
  have hprocess : ∀ q, q = .notice (.unexpectedTermination k) ∨
      q = .notice (.supervisionFailure k) → q ∈ a.pushes → k ∈ processes g := by
    intro q hq hpushed
    refine mem_processes ?_
    rw [← Daemon.value?_of_kind hsound.shape]
    exact hpush q hpushed k hq
  rcases hk with hk | hk <;> rcases hmem _ hk with hold | hnew
  · exact h.noticed k (.inl hold)
  · exact hprocess _ (.inl rfl) hnew
  · exact h.noticed k (.inr hold)
  · exact hprocess _ (.inr rfl) hnew

/-- The worker of a completion that is dropped is counted from then on. -/
theorem Settled.refuse (h : Settled g d) (hs : Daemon.step c d a = some d')
    (hq : a.pushes = some q) : Settled g { d' with events := d.events } := by
  obtain ⟨workers, hsub, hcounted⟩ := h.counted
  have hless : ∀ w, (d.workers.erase w).Subperm workers := fun w =>
    (erase_sublist.subperm).trans hsub
  cases Daemon.moves_of_step hs with
  | skip | succeed | fail => exact ⟨⟨workers, hless _, hcounted⟩, h.noticed⟩
  | post => exact ⟨⟨workers, hsub, hcounted⟩, h.noticed⟩
  | _ => cases hq

theorem Settled.length_events_le (h : Settled g d)
    (hclient : ∀ e ∈ d.events, e.ofClient = false)
    (hterminated : (d.events.filterMap Queued.terminated?).Nodup)
    (hfailed : (d.events.filterMap Queued.failed?).Nodup) :
    d.events.length ≤ (processes g).length * 3 := by
  obtain ⟨workers, -, hsound, hdistinct⟩ := h.counted
  have hcompleted : (d.events.filterMap Queued.completed?).Sublist
      (({ d with workers } : Daemon Key).outstanding.map ComponentTask.component) := by
    rw [Queued.filterMap_completed?, Daemon.outstanding, map_append, map_append]
    exact (sublist_append_right _ _).trans (sublist_append_right _ _)
  have hmem : ∀ k ∈ d.events.filterMap Queued.completed?, k ∈ processes g := by
    intro k hk
    obtain ⟨t, ht, rfl⟩ := mem_map.mp (hcompleted.subset hk)
    exact mem_processes (hsound.component_mem ht)
  have h₁ := ((List.Nodup.sublist hcompleted hdistinct).subperm hmem).length_le
  have h₂ := (hterminated.subperm fun k hk =>
    h.noticed k (.inl (Queued.mem_of_terminated? hk))).length_le
  have h₃ := (hfailed.subperm fun k hk => h.noticed k (.inr (Queued.mem_of_failed? hk))).length_le
  have hlength := Queued.length_eq_kinds hclient
  omega

end Settled

/-- The queue has three places for each process; the daemon is settled until it is stopped. -/
structure Awaited (g : DependencyGraph Key Component) (s : Service Key) : Prop where
  capacity : (processes g).length * 3 ≤ s.capacity
  settled : s.stopped = false → Settled g s.daemon

theorem Awaited.enqueue (h : Awaited g s) {d : Daemon Key} {pushes : Option (Queued Key)}
    (hd : s.stopped = false → Settled g d)
    (hrefused : s.stopped = false → ∀ q ∈ pushes, Settled g { d with events := s.daemon.events }) :
    Awaited g (s.enqueue d pushes) := by
  unfold Service.enqueue
  split
  · exact ⟨h.capacity, hd⟩
  · rename_i q
    split_ifs with hstop
    · exact ⟨h.capacity, fun hopen => hrefused hopen q rfl⟩
    · exact ⟨h.capacity, hd⟩
    · exact ⟨h.capacity, fun hopen => hrefused hopen q rfl⟩

theorem Awaited.step (h : Awaited g s) (hg : g.WellFormed) (hac : g.Acyclic)
    (hok : s.failsAlone a) (hs : Service.step c s a = some s') : Awaited g s' := by
  cases a with
  | daemon a =>
    obtain ⟨⟨hreport, -⟩, hs⟩ := ite_none_right_eq_some.mp hs
    obtain ⟨d, hd, rfl⟩ := map_eq_some_iff.mp hs
    have hnext : s.stopped = false → Settled g d := fun hopen =>
      (h.settled hopen).step hg hac hok hd fun q hq => (pushes_of_reportable hreport hq).2.2
    have hrefused : s.stopped = false → ∀ q ∈ a.pushes,
        Settled g { d with events := s.daemon.events } :=
      fun hopen q hq => (h.settled hopen).refuse hd hq
    split
    · exact Awaited.enqueue (s := s.hear) ⟨h.capacity, h.settled⟩ hnext hrefused
    · exact h.enqueue hnext hrefused
  | request r =>
    simp only [Service.step] at hs
    split_ifs at hs with _ hroom <;> cases hs
    · exact h
    · have hpost : Daemon.step c s.daemon (.post r.notice) =
          some { s.daemon with events := s.daemon.events ++ [.notice r.notice] } := rfl
      refine ⟨h.capacity, fun hopen =>
        (h.settled hopen).step hg hac (a := .post _) trivial hpost ?_⟩
      rintro q ⟨⟩ k hk
      cases r <;> rcases hk with hk | hk <;> cases hk
    · exact ⟨h.capacity, h.settled⟩
  | deinit =>
    obtain ⟨-, ⟨⟩⟩ := ite_none_right_eq_some.mp hs
    exact ⟨h.capacity, nofun⟩

theorem start_awaited [Inhabited Key] (hg : g.WellFormed) : Awaited g (start g) := by
  refine ⟨?_, fun _ => ⟨⟨[], .refl _, .inl (Daemon.init_inv hg), nodup_nil⟩, ?_⟩⟩
  · simp only [start, capacityFor]
    split <;> omega
  · rintro k (hk | hk) <;> cases hk

/-- A component event is not dropped while no client request is queued and no component has two
notices of one kind. -/
theorem no_component_event_lost [Inhabited Key] (hg : g.WellFormed) (hac : g.Acyclic)
    (hrun : Runs.Run (Service.step c) failsAlone (start g) s) (hroomy : s.Roomy a)
    (hs : Service.step c s a = some s') : s'.lost = s.lost := by
  have h : Awaited g s :=
    hrun.invariant _ (fun hi hok hs => hi.step hg hac hok hs) (start_awaited hg)
  cases a with
  | daemon a =>
    obtain ⟨⟨hreport, -⟩, hs⟩ := ite_none_right_eq_some.mp hs
    obtain ⟨d, hd, rfl⟩ := map_eq_some_iff.mp hs
    cases hq : a.pushes with
    | none => split <;> rfl
    | some q =>
      obtain ⟨hclient, hpops, hkind⟩ := pushes_of_reportable hreport hq
      obtain ⟨hclients, hterminated, hfailed⟩ := hroomy q hq
      have hevents : d.events = s.daemon.events ++ [q] := by
        rw [Daemon.step_events hd, hpops, hq]
        rfl
      rw [hpops, if_neg Bool.false_ne_true, enqueue]
      split_ifs with hstop hroom
      · rfl
      · rfl
      · exfalso
        have hnext : Settled g d := by
          refine (h.settled (by simpa using hstop)).step hg hac ?_ hd fun q' hq' => ?_
          · cases a <;> trivial
          · exact (pushes_of_reportable hreport hq').2.2
        rw [← hevents] at hterminated hfailed
        have hlength := hnext.length_events_le (fun e he => ?_) hterminated hfailed
        · have hcapacity := h.capacity
          rw [hevents, length_append, length_singleton] at hlength
          omega
        · rw [hevents, mem_append, mem_singleton] at he
          rcases he with he | rfl
          · exact hclients e he
          · exact hclient
  | request r =>
    simp only [Service.step] at hs
    split_ifs at hs <;> cases hs <;> rfl
  | deinit =>
    obtain ⟨-, ⟨⟩⟩ := ite_none_right_eq_some.mp hs
    rfl

def startedOnce : List (Act Nat) :=
  map .daemon [.startInitialTransition 1, .drain, .pushed, .drain, .take,
    .work ⟨⟨.activate, 0, 1, 1⟩, false⟩, .launch ⟨⟨.activate, 0, 1, 1⟩, true⟩,
    .setFlag ⟨⟨.activate, 0, 1, 1⟩, true⟩]

def untilFull : List (Act Nat) :=
  startedOnce.append (map .daemon [.post (.supervisionFailure 0), .exit 0,
    .post (.unexpectedTermination 0)])

def fillingPush : Act Nat := .daemon (.succeed ⟨⟨.activate, 0, 1, 1⟩, true⟩)

theorem no_component_event_lost_full :
    ∃ s s', Runs.Run (Service.step ⟨2, 3⟩) failsAlone (start Daemon.sampleGraph) s ∧
      s.Roomy fillingPush ∧ Service.step ⟨2, 3⟩ s fillingPush = some s' ∧
      s'.daemon.events.length = s'.capacity ∧ s'.lost = s.lost := by
  obtain ⟨s, hrun, hroomy, hany⟩ := Runs.Run.exists_of_exec (Service.step ⟨2, 3⟩) failsAlone
    (start Daemon.sampleGraph) (fun s => s.Roomy fillingPush ∧
      (Service.step ⟨2, 3⟩ s fillingPush).any (fun s' =>
        s'.daemon.events.length == s'.capacity) = true) untilFull (by decide +kernel)
  obtain ⟨s', hs, hfull⟩ := (any_eq_true _ _).mp hany
  exact ⟨s, s', hrun, hroomy, hs, beq_iff_eq.mp hfull,
    no_component_event_lost Daemon.sampleGraph_wellFormed
      (DependencyGraph.acyclic_of_rank id (by decide +kernel)) hrun hroomy hs⟩

/-- The run target `1` is left for `2` and entered again; process `0` is running for the second
time and its completion is queued. -/
def untilStartedAgain : List (Act Nat) := flatten
  [startedOnce,
    map .daemon [.succeed ⟨⟨.activate, 0, 1, 1⟩, true⟩, .handleEvent, .drain, .drain, .exit 0],
    [.request (.setRequestedRunTarget 2)],
    map .daemon [.handleEvent, .processGroupHandler, .drain, .drain, .pushed, .drain, .take,
      .work ⟨⟨.deactivate, 0, 2, 2⟩, false⟩, .setFlag ⟨⟨.deactivate, 0, 2, 2⟩, true⟩,
      .succeed ⟨⟨.deactivate, 0, 2, 2⟩, true⟩, .handleEvent, .drain, .drain],
    [.request (.setRequestedRunTarget 1)],
    map .daemon [.handleEvent, .processGroupHandler, .drain, .drain, .pushed, .drain, .take,
      .work ⟨⟨.activate, 0, 3, 3⟩, false⟩, .launch ⟨⟨.activate, 0, 3, 3⟩, true⟩,
      .setFlag ⟨⟨.activate, 0, 3, 3⟩, true⟩, .succeed ⟨⟨.activate, 0, 3, 3⟩, true⟩]]

/-- A completion is lost when clients have filled the queue, a notice when the one of the process
before is pushed late. -/
theorem component_event_lost :
    (∃ s, Runs.Run (Service.step ⟨2, 3⟩) Runs.anyStep (start Daemon.sampleGraph) s ∧
      s.capacity = 3 ∧ s.lost = [.completion ⟨.activate, 0, 1, 1⟩ .succeeded]) ∧
    (∃ s, Runs.Run (Service.step ⟨2, 3⟩) Runs.anyStep (start Daemon.sampleGraph) s ∧
      (∀ e ∈ s.daemon.events, e.ofClient = false) ∧
      s.lost = [.notice (.unexpectedTermination 0)]) ∧
    (∃ s, Runs.Run (Service.step ⟨2, 3⟩) Runs.anyStep (start Daemon.sampleGraph) s ∧
      (∀ e ∈ s.daemon.events, e.ofClient = false) ∧
      s.lost = [.notice (.supervisionFailure 0)]) := by
  refine ⟨?_, ?_, ?_⟩
  · exact Runs.Run.exists_of_exec _ _ _ _
      (List.append startedOnce [.request .getActiveRunTarget, .request .getActiveRunTarget,
        .request .getActiveRunTarget, fillingPush]) (by decide +kernel)
  · exact Runs.Run.exists_of_exec _ _ _ _
      (List.append untilStartedAgain [.daemon (.post (.unexpectedTermination 0)),
        .daemon (.post (.supervisionFailure 0)), .daemon (.exit 0),
        .daemon (.post (.unexpectedTermination 0))]) (by decide +kernel)
  · exact Runs.Run.exists_of_exec _ _ _ _
      (List.append untilStartedAgain [.daemon (.post (.supervisionFailure 0)),
        .daemon (.post (.unexpectedTermination 0)), .daemon (.post (.supervisionFailure 0))])
      (by decide +kernel)

end Capacity

end Service

end LaunchManager
