import LaunchManager.EventQueue

/-!
# The requests of clients

A client whose request was accepted by the event queue waits for its completion.
The main loop completes the requests that it pops; requests that are still queued
when the shutdown begins, or are accepted after that, are never completed.
-/

namespace LaunchManager

open List

set_option autoImplicit false

universe u
variable {Key : Type u}

namespace Daemon
variable [DecidableEq Key] {c : Config Key} {s s' : Daemon Key} {a : Act Key}

theorem shutdown_of_leaving (hs : step c s a = some s') (h : s.Attentive) (h' : ¬ s'.Attentive) :
    a = .shutdown := by
  have heff := step_effect hs
  generalize s.observe a s' = o at heff
  have hsame : s'.stage ≠ s.stage := fun heq => h' (by rwa [Attentive, heq])
  have hrunning : s'.stage ≠ .running := fun heq => h' (.inr heq)
  cases heff with
  | none _ hstage =>
    rcases hstage with heq | ⟨hoff, -⟩
    · exact absurd heq hsame
    · rcases h with h | h <;> rw [h] at hoff <;> cases hoff
  | halted _ _ hstage | failed _ hstage | terminated _ hstage | redirected _ hstage
  | completed _ _ hstage | reported _ _ hstage => exact absurd hstage hsame
  | recovered hstage | recovering hstage | refused _ _ hstage | accepted _ hstage | taken hstage
  | pending _ _ hstage | fallback _ hstage | initial _ _ hstage | unknown _ _ hstage =>
    exact absurd hstage.2 hrunning
  | shutdown ha => exact ha
  | off _ hstage | noOff hstage => rcases h with h | h <;> rw [h] at hstage <;> cases hstage.1

theorem events_of_pops (hpops : a.pops = true) (hs : step c s a = some s') :
    s.stage ≠ .initial ∧ ∃ q rest, s.events = q :: rest := by
  cases moves_of_step hs with
  | completion hev _ hinitial | terminated hev _ hinitial | heeded hev _ hinitial =>
    exact ⟨hinitial, _, _, hev⟩
  | _ => cases hpops

end Daemon

instance (s : Daemon Key) : Decidable s.Attentive := inferInstanceAs (Decidable (_ ∨ _))

namespace Service
variable {s s' : Service Key}

/-- No request of a client is queued when the shutdown begins, and none is accepted later. -/
def RequestsDone (s : Service Key) : Act Key → Prop
  | .daemon .shutdown => ∀ e ∈ s.daemon.events, e.ofClient = false
  | .request _ => s.daemon.Attentive ∨ s.stopped = true ∨ s.capacity ≤ s.daemon.events.length
  | .daemon _ | .deinit => True

instance (s : Service Key) (a : Act Key) : Decidable (s.RequestsDone a) :=
  match a with
  | .daemon .shutdown =>
    inferInstanceAs (Decidable (∀ e ∈ s.daemon.events, e.ofClient = false))
  | .request _ => inferInstanceAs (Decidable (_ ∨ _ ∨ _))
  | .daemon (.startInitialTransition _) | .daemon .handleEvent | .daemon .processGroupHandler
  | .daemon .waitOver | .daemon .drain | .daemon .pushed | .daemon .pushTimeout
  | .daemon .pushFailed | .daemon .take | .daemon (.skip _) | .daemon (.work _)
  | .daemon (.launch _) | .daemon (.setFlag _) | .daemon (.succeed _) | .daemon (.fail _ _)
  | .daemon (.exit _) | .daemon (.post _) | .deinit => isTrue trivial

structure Served (s : Service Key) : Prop where
  past : ∀ i ∈ s.completed, i < s.popped
  once : s.completed.Nodup
  waiting : ∀ i ∈ s.accepted, i ∈ s.completed ∨ ∃ j q, i = s.popped + j ∧
    s.daemon.events[j]? = some q ∧ q.ofClient = true
  quiet : ¬ s.daemon.Attentive → ∀ e ∈ s.daemon.events, e.ofClient = false
  ended : s.stopped = true → s.daemon.stage = .ended

theorem enqueue_frame (s : Service Key) (d : Daemon Key) (pushes : Option (Queued Key)) :
    (s.enqueue d pushes).popped = s.popped ∧ (s.enqueue d pushes).accepted = s.accepted ∧
      (s.enqueue d pushes).completed = s.completed ∧ (s.enqueue d pushes).stopped = s.stopped ∧
      (s.enqueue d pushes).daemon.stage = d.stage := by
  unfold Service.enqueue
  split
  · exact ⟨rfl, rfl, rfl, rfl, rfl⟩
  · split
    · exact ⟨rfl, rfl, rfl, rfl, rfl⟩
    · split <;> exact ⟨rfl, rfl, rfl, rfl, rfl⟩

theorem Served.hear (h : Served s) (hstage : s.daemon.stage ≠ .initial) {q : Queued Key}
    {rest : List (Queued Key)} (hq : s.daemon.events = q :: rest) :
    (∀ i ∈ s.hear.completed, i < s.hear.popped) ∧ s.hear.completed.Nodup ∧
      ∀ i ∈ s.hear.accepted, i ∈ s.hear.completed ∨ ∃ j q, i = s.hear.popped + j ∧
        rest[j]? = some q ∧ q.ofClient = true := by
  have hpast : ∀ i ∈ s.completed, i < s.popped + 1 := fun i hi => Nat.lt_succ_of_lt (h.past i hi)
  have hbehind : ∀ i ∈ s.accepted, i ∈ s.completed ∨ (i = s.popped ∧ q.ofClient = true) ∨
      ∃ j q, i = s.popped + 1 + j ∧ rest[j]? = some q ∧ q.ofClient = true := by
    intro i hi
    rcases h.waiting i hi with hdone | ⟨j, q', rfl, hj, hclient⟩
    · exact .inl hdone
    · rw [hq] at hj
      cases j with
      | zero =>
        cases hj
        exact .inr (.inl ⟨rfl, hclient⟩)
      | succ j => exact .inr (.inr ⟨j, q', by omega, hj, hclient⟩)
  simp only [Service.hear, hq, List.head?_cons, Option.any_some]
  by_cases hclient : q.ofClient = true
  · have hrunning : s.daemon.stage = .running := by
      by_contra hne
      have hnone := h.quiet (not_or.mpr ⟨hstage, hne⟩) q (by rw [hq]; exact mem_cons_self)
      rw [hclient] at hnone
      cases hnone
    rw [if_pos ⟨hrunning, hclient⟩]
    refine ⟨?_, ?_, fun i hi => ?_⟩
    · exact forall_mem_cons.mpr ⟨Nat.lt_succ_self _, hpast⟩
    · exact nodup_cons.mpr ⟨fun hin => Nat.lt_irrefl _ (h.past _ hin), h.once⟩
    · rcases hbehind i hi with hdone | ⟨rfl, -⟩ | hlater
      · exact .inl (mem_cons_of_mem _ hdone)
      · exact .inl mem_cons_self
      · exact .inr hlater
  · rw [if_neg fun hand => hclient hand.2]
    refine ⟨hpast, h.once, fun i hi => ?_⟩
    rcases hbehind i hi with hdone | ⟨-, hyes⟩ | hlater
    · exact .inl hdone
    · exact absurd hyes hclient
    · exact .inr hlater

variable [DecidableEq Key] {g : DependencyGraph Key Component} {c : Config Key} {a : Act Key}

theorem events_enqueue {d : Daemon Key} {a : Daemon.Act Key}
    (hreport : reportable s.daemon a = true)
    (hd : Daemon.step c s.daemon a = some d) {s₁ : Service Key} (hs₁ : s₁.daemon = s.daemon) :
    ∃ more, (s₁.enqueue d a.pushes).daemon.events =
      (if a.pops then s.daemon.events.tail else s.daemon.events) ++ more ∧
      ∀ e ∈ more, e.ofClient = false := by
  have hevents := Daemon.step_events hd
  cases hpush : a.pushes with
  | none =>
    rw [hpush, Option.toList_none] at hevents
    exact ⟨[], hevents, nofun⟩
  | some q =>
    obtain ⟨hclient, hpops, -⟩ := pushes_of_reportable hreport hpush
    rw [hpush, hpops, Option.toList_some] at hevents
    rw [hpops]
    have hkept : s.daemon.events = s.daemon.events ++ [] := (append_nil _).symm
    simp only [Service.enqueue, hs₁]
    split
    · exact ⟨[], hkept, nofun⟩
    · split
      · exact ⟨[q], hevents, by simpa using hclient⟩
      · exact ⟨[], hkept, nofun⟩

theorem Served.daemon_step (h : Served s) {a : Daemon.Act Key} {d : Daemon Key}
    (hok : s.RequestsDone (.daemon a)) (hreport : reportable s.daemon a = true)
    (hmain : s.stopped = true → a.ofMain = false) (hd : Daemon.step c s.daemon a = some d) :
    Served ((if a.pops then s.hear else s).enqueue d a.pushes) := by
  set s₁ := if a.pops then s.hear else s with hs₁
  have hdaemon : s₁.daemon = s.daemon := by
    rw [hs₁]
    split <;> rfl
  have hstopped : s₁.stopped = s.stopped := by
    rw [hs₁]
    split <;> rfl
  obtain ⟨more, hevents, hmore⟩ := events_enqueue hreport hd hdaemon
  obtain ⟨hpop, haccepted, hcompleted, hstop, hstage⟩ := s₁.enqueue_frame d a.pushes
  have hquiet : ¬ d.Attentive → ∀ e ∈ s.daemon.events, e.ofClient = false := by
    intro hlate
    by_cases hopen : s.daemon.Attentive
    · obtain rfl := Daemon.shutdown_of_leaving hd hopen hlate
      exact hok
    · exact h.quiet hopen
  have hbase : (∀ i ∈ s₁.completed, i < s₁.popped) ∧ s₁.completed.Nodup ∧
      ∀ i ∈ s₁.accepted, i ∈ s₁.completed ∨ ∃ j q, i = s₁.popped + j ∧
        (if a.pops then s.daemon.events.tail else s.daemon.events)[j]? = some q ∧
        q.ofClient = true := by
    cases hpops : a.pops with
    | false =>
      simp only [hpops, Bool.false_eq_true, if_false] at hs₁
      rw [hs₁]
      exact ⟨h.past, h.once, h.waiting⟩
    | true =>
      obtain ⟨hinitial, q, rest, hq⟩ := Daemon.events_of_pops hpops hd
      have hheard := h.hear hinitial hq
      simp only [hpops, if_true] at hs₁
      rw [hs₁, hq]
      exact hheard
  refine ⟨?_, ?_, ?_, ?_, ?_⟩
  · rw [hpop, hcompleted]
    exact hbase.1
  · rw [hcompleted]
    exact hbase.2.1
  · rw [hpop, haccepted, hcompleted, hevents]
    intro i hi
    rcases hbase.2.2 i hi with hdone | ⟨j, q, hij, hj, hclient⟩
    · exact .inl hdone
    · refine .inr ⟨j, q, hij, ?_, hclient⟩
      rw [List.getElem?_append_left (List.getElem?_eq_some_iff.mp hj).1]
      exact hj
  · intro hlate e he
    rw [Daemon.Attentive, hstage] at hlate
    rw [hevents, mem_append] at he
    rcases he with he | he
    · split at he
      · exact hquiet hlate e (mem_of_mem_tail he)
      · exact hquiet hlate e he
    · exact hmore e he
  · intro hstop'
    rw [hstop, hstopped] at hstop'
    rw [hstage, (Daemon.thread_frame (hmain hstop') hd).1]
    exact h.ended hstop'

theorem Served.step (h : Served s) (hok : s.RequestsDone a) (hs : Service.step c s a = some s') :
    Served s' := by
  cases a with
  | daemon a =>
    obtain ⟨⟨hreport, hmain⟩, hs⟩ := Option.ite_none_right_eq_some.mp hs
    obtain ⟨d, hd, rfl⟩ := Option.map_eq_some_iff.mp hs
    exact h.daemon_step hok hreport hmain hd
  | request r =>
    simp only [Service.step] at hs
    split at hs
    · cases hs
      exact h
    · rename_i hstop
      split at hs
      · rename_i hroom
        have hopen : s.daemon.Attentive := by
          rcases hok with hopen | hstop' | hfull
          · exact hopen
          · exact absurd hstop' hstop
          · omega
        cases hs
        refine ⟨h.past, h.once, ?_, fun hlate => absurd hopen hlate,
          fun hstop' => absurd hstop' hstop⟩
        rintro i hi
        rcases mem_cons.mp hi with rfl | hi
        · refine .inr ⟨_, .notice r.notice, rfl, ?_, ?_⟩
          · exact List.getElem?_concat_length
          · cases r <;> rfl
        · rcases h.waiting i hi with hdone | ⟨j, q, hij, hj, hclient⟩
          · exact .inl hdone
          · refine .inr ⟨j, q, hij, ?_, hclient⟩
            rw [List.getElem?_append_left (List.getElem?_eq_some_iff.mp hj).1]
            exact hj
      · cases hs
        exact { h with }
  | deinit =>
    obtain ⟨⟨hended, -⟩, ⟨⟩⟩ := Option.ite_none_right_eq_some.mp hs
    exact { h with ended := fun _ => hended }

theorem requests_completed_once [Inhabited Key]
    (hrun : Runs.Run (Service.step c) RequestsDone (start g) s) :
    (∀ i, s.completed.count i ≤ 1) ∧
      (s.stopped = true → ∀ i ∈ s.accepted, s.completed.count i = 1) := by
  have h : Served s := by
    refine hrun.invariant _ (fun hi hok hs => hi.step hok hs) ?_
    exact ⟨nofun, nodup_nil, nofun, fun _ => nofun, nofun⟩
  refine ⟨nodup_iff_count_le_one.mp h.once, fun hstop i hi => ?_⟩
  have hlate : ¬ s.daemon.Attentive := by
    rw [Daemon.Attentive, h.ended hstop]
    simp
  rcases h.waiting i hi with hdone | ⟨j, q, -, hj, hclient⟩
  · exact count_eq_one_of_mem h.once hdone
  · have hnone := h.quiet hlate q (mem_of_getElem? hj)
    rw [hclient] at hnone
    cases hnone

def shutDown : List (Act Nat) :=
  [.daemon .waitOver, .daemon .drain, .daemon .waitOver, .deinit]

@[irreducible] def closedSample : Service Nat :=
  (Runs.exec (Service.step ⟨2, 3⟩) RequestsDone (start Daemon.sampleGraph)
    ([.daemon (.startInitialTransition 2), .daemon .drain, .daemon .drain,
      .request .getActiveRunTarget, .daemon .handleEvent, .daemon .shutdown] ++ shutDown)).get
    (by decide +kernel)

theorem closedSample_run :
    Runs.Run (Service.step ⟨2, 3⟩) RequestsDone (start Daemon.sampleGraph) closedSample := by
  unfold closedSample
  exact Runs.Run.of_exec (Option.some_get _).symm

theorem requests_completed_once_closed :
    closedSample.accepted = [0] ∧ closedSample.completed.count 0 = 1 := by
  have haccepted : closedSample.accepted = [0] := by decide +kernel
  refine ⟨haccepted, (requests_completed_once closedSample_run).2 (by decide +kernel) 0 ?_⟩
  rw [haccepted]
  exact mem_singleton_self 0

/-- Request `0` is popped while the shutdown waits, and request `1` is left in the queue. -/
theorem requests_never_completed :
    ∃ s, Runs.Run (Service.step ⟨2, 3⟩) Runs.anyStep (start Daemon.sampleGraph) s ∧
      s.stopped = true ∧ s.accepted = [1, 0] ∧ s.popped = 1 ∧ s.completed = [] :=
  Runs.Run.exists_of_exec _ _ _ _
    ([.daemon (.startInitialTransition 2), .daemon .drain, .daemon .drain,
      .request .getActiveRunTarget, .daemon .shutdown, .daemon .handleEvent,
      .request (.setRequestedRunTarget 1)] ++ shutDown) (by decide +kernel)

end Service

end LaunchManager
