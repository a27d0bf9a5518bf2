import LaunchManager.ProcessInfoNode.Readiness
import LaunchManager.RunningHandshake

/-!
# The ready condition of a process that reports

The component waits for the Running report on semaphores that are made for each process before it
is forked. When a termination has been noted, `tryHandleTermination` posts on the same semaphore to
end that wait (`unblockSync`). If that post meets neither the channel of another process nor a
launcher that has missed the report, an activation succeeds for a new process only when its ready
condition has been met, the report included.
-/

namespace LaunchManager

open Option List

set_option autoImplicit false

namespace Handshake

/-- The post of `unblockSync`, which fails when the semaphores have been destroyed. -/
def unblock (h : Handshake) : Handshake :=
  if h.destroyed then h else { h with sendSync := h.sendSync + 1 }

/-- What the launcher has taken when `posts` of the posts are not the process's own. -/
def Taken (h : Handshake) (posts : Nat) : Prop :=
  match h.launcher with
  | .before => h.taken = []
  | .waitingReport _ => h.taken = [] ∧ h.timeout ≠ none
  | .postingReply .success => h.taken.length = 1 ∧ h.timeout ≠ none
  | .postingReply .timeout => h.taken = [] ∧ h.timeout ≠ none ∧ (0 < posts → 0 < h.reports)
  | .postingReply .fail => h.timeout ≠ none
  | .waitingFinal _ => h.taken.length ≤ 1 ∧ (h.taken = [] → 0 < posts → 0 < h.reports)
  | .deinit r | .returned r => r = .success → 0 < h.reports

/-- Every post is the process's own or one of `posts`. -/
structure Accounted (h : Handshake) (posts : Nat) : Prop where
  tokens : h.sendSync + h.taken.length = h.reports + posts
  taken : h.Taken posts

section Accounted
variable {h h' : Handshake} {posts : Nat}

theorem accounted_init : Accounted {} 0 := ⟨rfl, rfl⟩

theorem Taken.more (ht : h.Taken posts) (hlauncher : h'.launcher = h.launcher)
    (htaken : h'.taken = h.taken) (htimeout : h'.timeout = h.timeout)
    (hreports : h.reports ≤ h'.reports) : h'.Taken posts := by
  unfold Taken at *
  rw [hlauncher, htaken, htimeout]
  split at ht
  case h_4 => exact ⟨ht.1, ht.2.1, fun hp => (ht.2.2 hp).trans_le hreports⟩
  case h_6 => exact ⟨ht.1, fun hn hp => (ht.2 hn hp).trans_le hreports⟩
  case h_7 => exact fun hr => (ht hr).trans_le hreports
  case h_8 => exact fun hr => (ht hr).trans_le hreports
  all_goals exact ht

theorem Accounted.stepClient (hi : h.Accounted posts) {a : ClientAct}
    (hs : h.stepClient a = some h') : h'.Accounted posts := by
  obtain ⟨htokens, htaken⟩ := hi
  cases clientStep_of_step hs with
  | reported | finished =>
    refine ⟨?_, htaken.more rfl rfl rfl (Nat.le_succ _)⟩
    simp only
    omega
  | _ => exact ⟨htokens, htaken.more rfl rfl rfl (Nat.le_refl _)⟩

/-- With one post that is not its own, the process has made at least one of two that are taken. -/
theorem Accounted.stepLauncher (hi : h.Accounted posts) (hposts : posts ≤ 1) {a : LauncherAct}
    (ha : ∀ sync, a ≠ .waitForkRunning sync none) (hs : h.stepLauncher a = some h') :
    h'.Accounted posts := by
  obtain ⟨htokens, htaken⟩ := hi
  unfold Taken at htaken
  cases launcherStep_of_step hs with
  | invalid hpc => exact ⟨htokens, by rintro ⟨⟩⟩
  | start t hpc =>
    rw [hpc] at htaken
    exact ⟨htokens, htaken, by rintro ⟨⟩⟩
  | ignore hpc =>
    exfalso
    unfold Handshake.stepLauncher at hs
    rw [hpc] at hs
    cases a with
    | waitForkRunning sync timeout =>
      cases timeout with
      | none => exact ha sync rfl
      | some t => cases sync <;> cases hs
    | _ => cases hs
  | report d o value r hpc hwait =>
    rw [hpc] at htaken
    obtain ⟨hnone, htimeout⟩ := htaken
    rw [hnone, length_nil] at htokens
    rcases timedWait_cases hwait with ⟨rfl, hvalue, rfl⟩ | ⟨rfl, hzero, rfl, rfl⟩ | ⟨rfl, rfl, rfl⟩
    · refine ⟨?_, ?_, htimeout⟩
      · simp only [take, hnone, length_singleton]
        omega
      · simp only [take, hnone, length_singleton]
    · refine ⟨?_, hnone, htimeout, fun hp => ?_⟩
      · simp only [take, hnone, length_nil]
        omega
      · omega
    · refine ⟨?_, htimeout⟩
      simp only [take, hnone, length_nil]
      omega
  | replied r t hpc hr htimeout =>
    rw [hpc] at htaken
    refine ⟨htokens, ?_⟩
    cases r with
    | success => exact ⟨htaken.1.le, fun hn => by rw [hn] at htaken; cases htaken.1⟩
    | timeout => exact ⟨by simp [htaken.1], fun _ => htaken.2.2⟩
    | fail => exact absurd rfl hr
  | leave r r' reply hpc hr' =>
    rw [hpc] at htaken
    refine ⟨htokens, ?_⟩
    rintro rfl
    have htimeout : h.timeout ≠ none := by
      cases r with
      | success => exact htaken.2
      | timeout => exact htaken.2.1
      | fail => exact htaken
    rcases hr' with hr' | hnone
    · cases hr'
    · exact absurd hnone htimeout
  | final d o value r hpc hwait =>
    rw [hpc] at htaken
    obtain ⟨hle, hmissed⟩ := htaken
    rcases timedWait_cases hwait with ⟨rfl, hvalue, rfl⟩ | ⟨rfl, hzero, rfl, rfl⟩ | ⟨rfl, rfl, rfl⟩
    · refine ⟨?_, fun _ => ?_⟩
      · simp only [take, length_cons]
        omega
      · show 0 < h.reports
        by_cases hn : h.taken = []
        · have := hmissed hn
          rw [hn, length_nil] at htokens
          omega
        · have := length_pos_iff.mpr hn
          omega
    · refine ⟨?_, by rintro ⟨⟩⟩
      simp only [take]
      omega
    · exact ⟨htokens, by rintro ⟨⟩⟩
  | deinit r hpc =>
    rw [hpc] at htaken
    exact ⟨htokens, htaken⟩

variable {a : Act}

theorem Accounted.step (hi : h.Accounted posts) (hposts : ∀ a', a = .launcher a' → posts ≤ 1)
    (ha : ∀ sync, a ≠ .launcher (.waitForkRunning sync none)) (hs : h.step a = some h') :
    h'.Accounted posts := by
  cases a with
  | tick time =>
    obtain ⟨-, heq⟩ := ite_none_right_eq_some.mp hs
    cases heq
    exact ⟨hi.tokens, hi.taken.more rfl rfl rfl (Nat.le_refl _)⟩
  | launcher a => exact hi.stepLauncher (hposts a rfl) (fun sync h => ha sync (h ▸ rfl)) hs
  | client a => exact hi.stepClient hs

theorem Accounted.unblock (hi : h.Accounted posts) (hmissed : h.MissedReport → 0 < h.reports) :
    h.unblock.Accounted (if h.destroyed then posts else posts + 1) := by
  rw [Handshake.unblock]
  split
  · exact hi
  · obtain ⟨htokens, htaken⟩ := hi
    refine ⟨?_, ?_⟩
    · simp only
      omega
    · unfold Taken MissedReport at *
      simp only
      split at htaken
      case h_4 hpc =>
        rw [hpc] at hmissed
        exact ⟨htaken.1, htaken.2.1, fun _ => hmissed trivial⟩
      case h_6 hpc =>
        rw [hpc] at hmissed
        exact ⟨htaken.1, fun hn _ => hmissed hn⟩
      all_goals exact htaken

theorem reports_of_step (hs : h.step a = some h') : h.reports ≤ h'.reports := by
  cases a with
  | tick time =>
    obtain ⟨-, heq⟩ := ite_none_right_eq_some.mp hs
    cases heq
    exact Nat.le_refl _
  | launcher a => cases launcherStep_of_step hs <;> exact Nat.le_refl _
  | client a =>
    cases clientStep_of_step hs with
    | reported | finished => exact Nat.le_succ _
    | _ => exact Nat.le_refl _

theorem launcher_of_step (ha : ∀ a', a ≠ .launcher a') (hs : h.step a = some h') :
    h'.launcher = h.launcher := by
  cases a with
  | tick time =>
    obtain ⟨-, heq⟩ := ite_none_right_eq_some.mp hs
    cases heq
    rfl
  | launcher a => exact absurd rfl (ha a)
  | client a => cases clientStep_of_step hs <;> rfl

theorem launcher_unblock (h : Handshake) : h.unblock.launcher = h.launcher := by
  rw [unblock]
  split <;> rfl

theorem reports_unblock (h : Handshake) : h.unblock.reports = h.reports := by
  rw [unblock]
  split <;> rfl

end Accounted

end Handshake

namespace ProcessInfoNode

/-- The point of the termination that the worker handles itself. -/
def System.inlining (s : System) : Option TryHandleTermination :=
  match s.worker with
  | some (.activate _ (.inline _ h)) => some h
  | _ => none

/-- An end was noted during a start or after a request, and `unblockSync` is called next. -/
def TryHandleTermination.announces :
    Option TryHandleTermination → Option TryHandleTermination → Bool
  | some (.requested _), some (.terminated _) => true
  | some .casStarting, some (.terminated _) => true
  | _, _ => false

/-- The component with the record of its waits and with the channel `sync_`, which is that of the
process launched last or, once it is `prepared`, of the process about to be forked. `posts` of the
posts on the channel were made by `unblockSync`, and the last two fields say that the thread that
reaps processes or the worker is about to call it. -/
structure Reporting where
  system : System := {}
  readiness : Readiness := {}
  channel : Handshake := {}
  prepared : Bool := false
  posts : Nat := 0
  osUnblocks : Bool := false
  workerUnblocks : Bool := false

inductive ReportingAct where
  | system (a : Act)
  | channel (a : Handshake.Act)
  | setupComms
  | osUnblock
  | workerUnblock
  deriving DecidableEq

def ReportingAct.WithoutMain : ReportingAct → Prop
  | .system a => a.WithoutMain
  | .channel _ | .setupComms | .osUnblock | .workerUnblock => True

instance : ∀ a : ReportingAct, Decidable a.WithoutMain
  | .system a => inferInstanceAs (Decidable a.WithoutMain)
  | .channel _ | .setupComms | .osUnblock | .workerUnblock => isTrue trivial

namespace Reporting

/-- The wait for the report returns what `waitForkRunning` has returned. -/
def Returns (ok : Bool) : Launcher → Prop
  | .returned result => ok = decide (result = .success)
  | .before | .waitingReport _ | .postingReply _ | .waitingFinal _ | .deinit _ => False

instance (ok : Bool) : ∀ l : Launcher, Decidable (Returns ok l)
  | .returned result => inferInstanceAs (Decidable (ok = decide (result = .success)))
  | .before | .waitingReport _ | .postingReply _ | .waitingFinal _ | .deinit _ => isFalse id

def waits (w : Reporting) : Bool :=
  match w.system.worker with
  | some (.activate _ .waitRunning) => true
  | _ => false

def launches (w : Reporting) : Bool :=
  match w.system.worker with
  | some (.activate _ .launch) => true
  | _ => false

/-- A thread that is about to call `unblockSync` does nothing else before, and a process is forked
after its channel has been made. -/
def Allows (w : Reporting) : Act → Prop
  | .worker ok => w.workerUnblocks = false ∧ (w.waits = true → Returns ok w.channel.launcher)
  | .launched _ => w.prepared = true
  | .os => w.osUnblocks = false
  | _ => True

instance (w : Reporting) : ∀ a : Act, Decidable (w.Allows a)
  | .worker ok => inferInstanceAs (Decidable (_ ∧ (_ → Returns ok w.channel.launcher)))
  | .launched _ => inferInstanceAs (Decidable (w.prepared = true))
  | .os => inferInstanceAs (Decidable (w.osUnblocks = false))
  | .begin _ | .exit _ _ | .reap _ | .reapEarly _ _ | .takeEvent | .main _ | .forceKill =>
    isTrue trivial

/-- The process acts on its channel while it is alive, and `waitForkRunning` is called with the
ready timeout. -/
def Permits (c : ComponentConfig) (w : Reporting) : Handshake.Act → Prop
  | .tick _ => True
  | .client _ =>
    c.isReporting = true ∧ w.system.node.Alive w.system.node.started ∧ w.prepared = false
  | .launcher (.waitForkRunning _ timeout) => w.waits = true ∧ timeout ≠ none
  | .launcher _ => w.waits = true

instance (c : ComponentConfig) (w : Reporting) : ∀ a : Handshake.Act, Decidable (w.Permits c a)
  | .tick _ => isTrue trivial
  | .client _ => inferInstanceAs (Decidable (_ ∧ _))
  | .launcher (.waitForkRunning _ _) => inferInstanceAs (Decidable (_ ∧ _))
  | .launcher (.wait _) | .launcher (.post _) | .launcher .deinit =>
    inferInstanceAs (Decidable (w.waits = true))

/-- After a step of the component. A launch that succeeds or fails ends the preparation. -/
def follow (w : Reporting) (a : Act) (s' : System) : Reporting where
  system := s'
  readiness := Readiness.note w.system a s' w.readiness
  channel := w.channel
  prepared := match a with
    | .launched _ | .worker _ => false
    | _ => w.prepared
  posts := w.posts
  osUnblocks := w.osUnblocks ||
    TryHandleTermination.announces (w.system.os.map Handler.pc) (s'.os.map Handler.pc)
  workerUnblocks := w.workerUnblocks ||
    TryHandleTermination.announces w.system.inlining s'.inlining

/-- `startProcess` replaces `sync_` before it forks: `setupComms` makes the semaphores of the next
process, and a process without a report gets none. The waits on the old ones no longer count. -/
def setupComms (w : Reporting) : Reporting :=
  { w with
    readiness := { w.readiness with running := false }
    channel := {}
    prepared := true
    posts := 0 }

def unblockSync (w : Reporting) : Reporting :=
  { w with
    channel := w.channel.unblock
    posts := if w.channel.destroyed then w.posts else w.posts + 1 }

def step (c : ComponentConfig) (w : Reporting) : ReportingAct → Option Reporting
  | .system a => if w.Allows a then (w.system.step c a).map (w.follow a) else none
  | .channel a =>
    if w.Permits c a then (w.channel.step a).map ({ w with channel := · }) else none
  | .setupComms => if w.launches then some w.setupComms else none
  | .osUnblock =>
    if w.osUnblocks then some { w.unblockSync with osUnblocks := false } else none
  | .workerUnblock =>
    if w.workerUnblocks then some { w.unblockSync with workerUnblocks := false } else none

/-- The ready condition of the process launched last has been met, and if that asks for the report,
the process has made it. -/
def Met (c : ComponentConfig) (w : Reporting) : Prop :=
  w.readiness.Met c w.system.node ∧
    (c.isReporting = true → c.readyCondition ≠ .file → 0 < w.channel.reports)

/-- No file condition is skipped, and a post of `unblockSync` meets neither the channel of another
process nor a launcher that has missed the report. -/
def Timely (c : ComponentConfig) (w : Reporting) : ReportingAct → Prop
  | .system a => w.system.Registered c a
  | .channel _ | .setupComms | .workerUnblock => True
  | .osUnblock =>
    (w.prepared = false ∧ ∀ h ∈ w.system.os, h.process = w.system.node.started) ∧
      (w.channel.MissedReport → 0 < w.channel.reports)

instance (c : ComponentConfig) (w : Reporting) : ∀ a : ReportingAct, Decidable (w.Timely c a)
  | .system a => inferInstanceAs (Decidable (w.system.Registered c a))
  | .channel _ | .setupComms | .workerUnblock => isTrue trivial
  | .osUnblock => inferInstanceAs (Decidable (_ ∧ _))

structure Inv (c : ComponentConfig) (w : Reporting) : Prop where
  readiness : w.system.ReadinessInv c w.readiness
  reaped : w.system.HandlerReaped
  osNoted : w.osUnblocks = true → ∃ h, w.system.os = some h ∧ h.pc.pre = false
  workerNoted : w.workerUnblocks = true → ∃ h, w.system.inlining = some h
  preparing : w.prepared = true → w.launches = true ∧ w.channel.launcher = .before ∧ w.posts = 0
  inlining : ∀ h, w.system.inlining = some h → w.channel.launcher = .before
  inserting : ∀ attempt, w.system.worker = some (.activate attempt .insert) →
    w.channel.launcher = .before ∧ w.posts = 0 ∧
      ∀ h, w.system.os = some h → h.process ≠ w.system.node.started
  waiting : w.waits = true → (w.system.Open → w.posts = 0) ∧
    (w.osUnblocks = true → (∀ h, w.system.os = some h → h.process = w.system.node.started) →
      w.posts = 0) ∧ w.posts ≤ 1
  accounted : w.channel.Accounted w.posts
  running : w.readiness.running = true → 0 < w.channel.reports

theorem inv_init (c : ComponentConfig) : Inv c {} where
  readiness := System.readinessInv_init c
  reaped := nofun
  osNoted := nofun
  workerNoted := nofun
  preparing := nofun
  inlining := nofun
  inserting := nofun
  waiting := nofun
  accounted := Handshake.accounted_init
  running := nofun

section Step
variable {c : ComponentConfig} {w w' : Reporting} {s' : System} {a : Act}

theorem worker_of_waits (h : w.waits = true) :
    ∃ attempt, w.system.worker = some (.activate attempt .waitRunning) := by
  rw [waits] at h
  split at h
  case h_1 attempt hw => exact ⟨attempt, hw⟩
  case h_2 => cases h

theorem worker_of_inlining {s : System} {h : TryHandleTermination} (hh : s.inlining = some h) :
    ∃ attempt status, s.worker = some (.activate attempt (.inline status h)) := by
  rw [System.inlining] at hh
  split at hh
  case h_1 attempt status h' hw =>
    cases hh
    exact ⟨attempt, status, hw⟩
  case h_2 => cases hh

theorem worker_of_launches (h : w.launches = true) :
    ∃ attempt, w.system.worker = some (.activate attempt .launch) := by
  rw [launches] at h
  split at h
  case h_1 attempt hw => exact ⟨attempt, hw⟩
  case h_2 => cases h

theorem announces_eq_true {h h' : Option TryHandleTermination}
    (ha : TryHandleTermination.announces h h' = true) :
    ∃ pc pc', h = some pc ∧ h' = some pc' ∧ pc.pre = true ∧ pc'.pre = false := by
  unfold TryHandleTermination.announces at ha
  split at ha
  · exact ⟨_, _, rfl, rfl, rfl, rfl⟩
  · exact ⟨_, _, rfl, rfl, rfl, rfl⟩
  · cases ha

namespace Inv

theorem unused_of_step (hi : w.Inv c) (hallows : w.Allows a) (hs : w.system.step c a = some s')
    {attempt' : Nat} {pc' : Activate} (hw' : s'.worker = some (.activate attempt' pc'))
    (hpc' : pc' = .insert ∨ ∃ status h, pc' = .inline status h) :
    w.channel.launcher = .before := by
  have hbefore : ∀ {attempt : Nat} {pc : Activate},
      w.system.worker = some (.activate attempt pc) →
      (pc = .insert ∨ ∃ status h, pc = .inline status h) → w.channel.launcher = .before := by
    rintro attempt pc hw (rfl | ⟨status, h, rfl⟩)
    · exact (hi.inserting _ hw).1
    · exact hi.inlining h (by rw [System.inlining, hw])
  rcases System.activate_cases hs hw' with
    ⟨hw, -⟩ | ⟨-, rfl⟩ | ⟨pid, rfl, -⟩ | ⟨ok, attempt, pc, -, hw, hnext⟩
  · exact hbefore hw hpc'
  · rcases hpc' with ⟨⟨⟩⟩ | ⟨_, _, ⟨⟩⟩
  · exact (hi.preparing hallows).2.1
  · refine hbefore hw ?_
    generalize s'.node = n' at hnext
    rcases hpc' with rfl | ⟨status, h, rfl⟩
    · cases hnext
    · cases hnext with
      | early => exact .inl rfl
      | inline => exact .inr ⟨_, _, rfl⟩

theorem inserting_of_step (hi : w.Inv c) (hallows : w.Allows a)
    (hs : w.system.step c a = some s') {attempt' : Nat}
    (hw' : s'.worker = some (.activate attempt' .insert)) :
    w.posts = 0 ∧ ∀ h, s'.os = some h → h.process ≠ s'.node.started := by
  have htracked := hi.readiness.tracked
  rcases System.activate_cases hs hw' with
    ⟨hw, ha⟩ | ⟨-, ⟨⟩⟩ | ⟨pid, rfl, hw, -⟩ | ⟨ok, attempt, pc, -, hw, hnext⟩
  · have hl : ∀ pid, a ≠ .launched pid := by
      rintro pid rfl
      cases System.moves_of_step hs with
      | launched _ attempt hl => cases hl.symm.trans hw
    obtain ⟨-, hposts, hother⟩ := hi.inserting _ hw
    refine ⟨hposts, fun h' hos' => ?_⟩
    rw [System.started_of_step hs hl]
    rcases System.handler_cases hs hos' with
      ⟨hos, -⟩ | ⟨process, status, -, rfl, -, -, hin, hreaped⟩ | ⟨h, pc', -, hos, rfl, -⟩
    · exact hother h' hos
    · obtain rfl := htracked.inserted process hin hreaped
      exact absurd (.inl ⟨hin, hreaped⟩) (htracked.alone _ hw _ rfl).1
    · exact hother h hos
  · refine ⟨(hi.preparing hallows).2.2, fun h' hos' heq => ?_⟩
    have hle : h'.process ≤ w.system.node.started := by
      rcases System.handler_cases hs hos' with ⟨hos, -⟩ | ⟨_, _, ⟨⟩, _⟩ | ⟨_, _, ⟨⟩, _⟩
      exact htracked.started h' hos
    have hstarted : s'.node.started = w.system.node.started + 1 := by
      rw [System.step_custody hs]
      rfl
    omega
  · generalize s'.node = n' at hnext
    cases hnext

theorem waiting_of_step (hi : w.Inv c) (hallows : w.Allows a) (hs : w.system.step c a = some s')
    (hwaits' : (w.follow a s').waits = true) : (s'.Open → w.posts = 0) ∧
      ((w.follow a s').osUnblocks = true → (∀ h, s'.os = some h → h.process = s'.node.started) →
        w.posts = 0) ∧ w.posts ≤ 1 := by
  obtain ⟨attempt', hw'⟩ := worker_of_waits hwaits'
  have hl : ∀ pid, a ≠ .launched pid := by
    rintro pid rfl
    cases System.moves_of_step hs with
    | launched => cases hw'
  rcases System.activate_cases hs hw' with
    ⟨hw, ha⟩ | ⟨-, ⟨⟩⟩ | ⟨pid, rfl, -⟩ | ⟨ok, attempt, pc, -, hw, hnext⟩
  · have hwaits : w.waits = true := by rw [waits, hw]
    obtain ⟨hopen, howed, hle⟩ := hi.waiting hwaits
    refine ⟨fun hopen' => hopen ?_, fun hset hown => ?_, hle⟩
    · refine (hi.readiness.tracked.open_of_step hs hopen').resolve_right fun hinsert => ?_
      have hp := System.performs hs
      rw [hinsert] at hp
      cases hp
      exact ha _ rfl
    · rcases Bool.or_eq_true_iff.mp hset with hbefore | hnew
      · obtain ⟨h, hos, -⟩ := hi.osNoted hbefore
        refine howed hbefore fun h₁ hos₁ => ?_
        cases hos.symm.trans hos₁
        rw [← System.started_of_step hs hl]
        refine hown h (System.os_of_step hs hos ?_)
        rintro rfl
        exact Bool.noConfusion (hallows.symm.trans hbefore)
      · obtain ⟨pc, pc', hpc, -, hpre, -⟩ := announces_eq_true hnew
        obtain ⟨h, hos, rfl⟩ := map_eq_some_iff.mp hpc
        exact hopen (.inr ⟨h, hos, hpre⟩)
  · exact absurd rfl (hl pid)
  · generalize s'.node = n' at hnext
    cases hnext with
    | insertedRunning =>
      have hposts := (hi.inserting _ hw).2.1
      exact ⟨fun _ => hposts, fun _ _ => hposts, by omega⟩

theorem running_of_step (hi : w.Inv c) (hallows : w.Allows a)
    (hrunning : (w.follow a s').readiness.running = true) : 0 < w.channel.reports := by
  cases a with
  | begin | launched => cases hrunning
  | worker ok =>
    have hnoted : (w.system.worker.elim w.readiness (Job.noted ok w.readiness)).running = true :=
      hrunning
    by_cases hwaits : w.waits = true
    · obtain ⟨attempt, hw⟩ := worker_of_waits hwaits
      rw [hw] at hnoted
      obtain rfl : ok = true := hnoted
      have hreturns := hallows.2 hwaits
      have htaken := hi.accounted.taken
      unfold Handshake.Taken at htaken
      cases hlauncher : w.channel.launcher with
      | returned result =>
        rw [hlauncher] at hreturns htaken
        exact htaken (of_decide_eq_true hreturns.symm)
      | _ =>
        rw [hlauncher] at hreturns
        exact hreturns.elim
    · refine hi.running ?_
      cases hw : w.system.worker with
      | none =>
        rw [hw] at hnoted
        exact hnoted
      | some j =>
        rw [hw] at hnoted
        cases j with
        | deactivate => exact hnoted
        | activate attempt pc =>
          cases pc with
          | waitRunning => exact absurd (by rw [waits, hw]) hwaits
          | _ => exact hnoted
  | _ => exact hi.running hrunning

theorem of_system (hi : w.Inv c) (hok : w.system.Registered c a) (hallows : w.Allows a)
    (hs : w.system.step c a = some s') : (w.follow a s').Inv c where
  readiness := hi.readiness.step hok hs
  reaped := hi.readiness.tracked.handlerReaped_of_step hi.reaped hs
  osNoted hset := by
    rcases Bool.or_eq_true_iff.mp hset with hbefore | hnew
    · obtain ⟨h, hos, hpre⟩ := hi.osNoted hbefore
      refine ⟨h, System.os_of_step hs hos ?_, hpre⟩
      rintro rfl
      exact Bool.noConfusion (hallows.symm.trans hbefore)
    · obtain ⟨pc, pc', -, hpc', -, hpre⟩ := announces_eq_true hnew
      obtain ⟨h, hos, rfl⟩ := map_eq_some_iff.mp hpc'
      exact ⟨h, hos, hpre⟩
  workerNoted hset := by
    rcases Bool.or_eq_true_iff.mp hset with hbefore | hnew
    · obtain ⟨h, hh⟩ := hi.workerNoted hbefore
      obtain ⟨attempt, status, hw⟩ := worker_of_inlining hh
      refine ⟨h, ?_⟩
      cases System.moves_of_step hs with
      | begin type hnone => cases hnone.symm.trans hw
      | worker ok => exact Bool.noConfusion (hallows.1.symm.trans hbefore)
      | launched pid attempt' hl => cases hl.symm.trans hw
      | _ => exact hh
    · obtain ⟨pc, pc', -, hpc', -⟩ := announces_eq_true hnew
      exact ⟨pc', hpc'⟩
  preparing hprepared := by
    have hset : w.prepared = true := by
      cases a with
      | launched | worker => cases hprepared
      | _ => exact hprepared
    obtain ⟨hlaunches, hfresh⟩ := hi.preparing hset
    obtain ⟨attempt, hw⟩ := worker_of_launches hlaunches
    refine ⟨?_, hfresh⟩
    cases System.moves_of_step hs with
    | begin type hnone => cases hnone.symm.trans hw
    | worker | launched => cases hprepared
    | _ => exact hlaunches
  inlining h hh := by
    obtain ⟨attempt, status, hw'⟩ := worker_of_inlining hh
    exact hi.unused_of_step hallows hs hw' (.inr ⟨status, h, rfl⟩)
  inserting attempt hw' :=
    ⟨hi.unused_of_step hallows hs hw' (.inl rfl), hi.inserting_of_step hallows hs hw'⟩
  waiting := hi.waiting_of_step hallows hs
  accounted := hi.accounted
  running := hi.running_of_step hallows

theorem of_channel (hi : w.Inv c) {a : Handshake.Act} {h' : Handshake} (hpermits : w.Permits c a)
    (hs : w.channel.step a = some h') : Inv c { w with channel := h' } := by
  have hwaits : ∀ a', a = .launcher a' → w.waits = true := by
    rintro a' rfl
    cases a' with
    | waitForkRunning => exact hpermits.1
    | _ => exact hpermits
  have hkept : ¬ w.waits = true → h'.launcher = w.channel.launcher :=
    fun hw => Handshake.launcher_of_step (fun a' ha => hw (hwaits a' ha)) hs
  refine ⟨hi.readiness, hi.reaped, hi.osNoted, hi.workerNoted, fun hset => ?_, fun h hh => ?_,
    fun attempt hw => ?_, hi.waiting,
    hi.accounted.step (fun a' ha => (hi.waiting (hwaits a' ha)).2.2) ?_ hs,
    fun hr => (hi.running hr).trans_le (Handshake.reports_of_step hs)⟩
  · obtain ⟨hlaunches, hlauncher, hposts⟩ := hi.preparing hset
    obtain ⟨attempt, hw⟩ := worker_of_launches hlaunches
    exact ⟨hlaunches, (hkept (by rw [waits, hw]; exact nofun)).trans hlauncher, hposts⟩
  · obtain ⟨attempt, status, hw⟩ := worker_of_inlining hh
    exact (hkept (by rw [waits, hw]; exact nofun)).trans (hi.inlining h hh)
  · obtain ⟨hlauncher, hposts⟩ := hi.inserting attempt hw
    exact ⟨(hkept (by rw [waits, hw]; exact nofun)).trans hlauncher, hposts⟩
  · rintro sync rfl
    exact hpermits.2 rfl

theorem of_setupComms (hi : w.Inv c) (hlaunches : w.launches = true) : w.setupComms.Inv c := by
  obtain ⟨attempt, hw⟩ := worker_of_launches hlaunches
  have hworker : ∀ {j}, w.system.worker = some j → j = .activate attempt .launch :=
    fun h => Option.some.inj (h.symm.trans hw)
  refine ⟨{ hi.readiness with passed := fun _ _ h => ?_, returned := fun h => ?_ }, hi.reaped,
    hi.osNoted, hi.workerNoted, fun _ => ⟨hlaunches, rfl, rfl⟩, fun _ _ => rfl, fun _ h => ?_,
    fun h => ?_, Handshake.accounted_init, nofun⟩
  · cases hworker h
    trivial
  · cases h.symm.trans hw
  · cases hworker h
  · obtain ⟨_, h⟩ := worker_of_waits h
    cases hworker h

/-- The post ends the wait for the process that has ended, once. -/
theorem of_osUnblock (hi : w.Inv c) (hok : w.Timely c .osUnblock) (hset : w.osUnblocks = true) :
    Inv c { w.unblockSync with osUnblocks := false } := by
  obtain ⟨h, hos, hpre⟩ := hi.osNoted hset
  have hown := hok.1.2 h hos
  refine ⟨hi.readiness, hi.reaped, nofun, hi.workerNoted,
    fun hprepared => Bool.noConfusion (hok.1.1.symm.trans hprepared), fun h₁ hh => ?_,
    fun attempt hw => ?_, fun hwaits => ⟨fun hopen => ?_, nofun, ?_⟩, hi.accounted.unblock hok.2,
    fun hr => ?_⟩
  · exact (Handshake.launcher_unblock _).trans (hi.inlining h₁ hh)
  · exact absurd hown ((hi.inserting attempt hw).2.2 h hos)
  · exfalso
    rcases hopen with ⟨-, hreaped⟩ | ⟨h₁, hos₁, hpre₁⟩
    · have := hi.reaped h hos
      rw [hown] at this
      exact Bool.noConfusion (this.symm.trans hreaped)
    · cases hos.symm.trans hos₁
      exact Bool.noConfusion (hpre.symm.trans hpre₁)
  · have hposts : w.posts = 0 := (hi.waiting hwaits).2.1 hset hok.1.2
    show (if w.channel.destroyed then w.posts else w.posts + 1) ≤ 1
    split <;> omega
  · exact (hi.running hr).trans_eq (Handshake.reports_unblock _).symm

theorem of_workerUnblock (hi : w.Inv c) (hset : w.workerUnblocks = true) :
    Inv c { w.unblockSync with workerUnblocks := false } := by
  obtain ⟨h, hh⟩ := hi.workerNoted hset
  obtain ⟨attempt, status, hw⟩ := worker_of_inlining hh
  have hbefore := hi.inlining h hh
  refine ⟨hi.readiness, hi.reaped, hi.osNoted, nofun, fun hset => ?_, fun h₁ hh₁ => ?_,
    fun attempt' hw' => ?_, fun hwaits => ?_, hi.accounted.unblock fun hmissed => ?_, fun hr => ?_⟩
  · obtain ⟨attempt', hw'⟩ := worker_of_launches (hi.preparing hset).1
    cases hw.symm.trans hw'
  · exact (Handshake.launcher_unblock _).trans (hi.inlining h₁ hh₁)
  · cases hw.symm.trans hw'
  · obtain ⟨attempt', hw'⟩ := worker_of_waits hwaits
    cases hw.symm.trans hw'
  · rw [Handshake.MissedReport, hbefore] at hmissed
    exact hmissed.elim
  · exact (hi.running hr).trans_eq (Handshake.reports_unblock _).symm

theorem step (hi : w.Inv c) {a : ReportingAct} (hok : w.Timely c a)
    (hs : w.step c a = some w') : w'.Inv c := by
  cases a with
  | system a =>
    obtain ⟨hallows, hmap⟩ := ite_none_right_eq_some.mp hs
    obtain ⟨s', hstep, rfl⟩ := map_eq_some_iff.mp hmap
    exact hi.of_system hok hallows hstep
  | channel a =>
    obtain ⟨hpermits, hmap⟩ := ite_none_right_eq_some.mp hs
    obtain ⟨h', hstep, rfl⟩ := map_eq_some_iff.mp hmap
    exact hi.of_channel hpermits hstep
  | setupComms =>
    obtain ⟨hlaunches, ⟨⟩⟩ := ite_none_right_eq_some.mp hs
    exact hi.of_setupComms hlaunches
  | osUnblock =>
    obtain ⟨hset, ⟨⟩⟩ := ite_none_right_eq_some.mp hs
    exact hi.of_osUnblock hok hset
  | workerUnblock =>
    obtain ⟨hset, ⟨⟩⟩ := ite_none_right_eq_some.mp hs
    exact hi.of_workerUnblock hset

end Inv

end Step

/-- An activation that returns success has seen the ready condition of the process launched last
met. -/
theorem ready_when_activated (c : ComponentConfig) {w : Reporting}
    (hrun : Runs.Run (step c) (Timely c) {} w) (hw : w.system.worker = none)
    (hret : w.system.returned = some (.activate, .success))
    (hlaunched : w.readiness.launched = true) : w.Met c := by
  have hi := hrun.invariant (Inv c) (fun hi hok hs => hi.step hok hs) (inv_init c)
  have hmet := hi.readiness.returned hw hret hlaunched
  exact ⟨hmet, fun hreporting hcond => hi.running (hmet.1.1 hreporting hcond)⟩

def sampleLaunch : List ReportingAct :=
  ReportingAct.system (.begin .activate) ::
    List.replicate 10 (ReportingAct.system (.worker true)) ++
      [ReportingAct.setupComms, ReportingAct.system (.launched 7)]

theorem ready_when_activated_reported :
    ∃ w, Runs.Run (step ⟨false, true, .running, 0⟩) (Timely ⟨false, true, .running, 0⟩) {} w ∧
      w.system.worker = none ∧ w.system.returned = some (.activate, .success) ∧
      w.readiness.launched = true ∧ w.Met ⟨false, true, .running, 0⟩ := by
  obtain ⟨w, hrun, hw, hret, hlaunched⟩ := Runs.Run.exists_of_exec
    (step ⟨false, true, .running, 0⟩) (Timely ⟨false, true, .running, 0⟩) {}
    (fun w => w.system.worker = none ∧ w.system.returned = some (.activate, .success) ∧
      w.readiness.launched = true)
    (List.flatten [sampleLaunch, [.system (.worker true),
      .channel (.client .reportRunningState), .channel (.client (.openChannel true)),
      .channel (.client (.close true false)), .channel (.client (.post true)),
      .channel (.launcher (.waitForkRunning true (some 10))),
      .channel (.launcher (.wait .taken)), .channel (.launcher (.post true)),
      .channel (.client (.wait .taken)), .channel (.client (.post true)),
      .channel (.launcher (.wait .taken)), .channel (.launcher .deinit)],
      List.replicate 6 (.system (.worker true))])
    (by decide +kernel)
  exact ⟨w, hrun, hw, hret, hlaunched,
    ready_when_activated ⟨false, true, .running, 0⟩ hrun hw hret hlaunched⟩

/-- First, no file is waited for. Second, the post of `unblockSync` is taken for the final post. -/
theorem activated_without_ready_condition :
    (∃ w, Runs.Run (step ⟨true, false, .file, 0⟩) (fun _ a => a.WithoutMain) {} w ∧
      w.system.worker = none ∧ w.system.returned = some (.activate, .success) ∧
      w.readiness.launched = true ∧ w.readiness.file = false) ∧
    ∃ w, Runs.Run (step ⟨true, true, .running, 0⟩) (fun _ a => a.WithoutMain) {} w ∧
      w.system.worker = none ∧ w.system.returned = some (.activate, .success) ∧
      w.readiness.launched = true ∧ w.channel.reports = 0 := by
  constructor
  · exact Runs.Run.exists_of_exec _ _ _ _
      (List.flatten [sampleLaunch, [.system (.exit 1 0), .system (.reapEarly 1 true)],
        List.replicate 5 (.system (.worker true)), [.workerUnblock],
        List.replicate 5 (.system (.worker true))])
      (by decide +kernel)
  · exact Runs.Run.exists_of_exec _ _ _ _
      (List.flatten [sampleLaunch, [.system (.worker true),
        .channel (.launcher (.waitForkRunning true (some 10))), .channel (.tick 10),
        .channel (.launcher (.wait .timedOut)), .channel (.launcher (.post true)),
        .system (.exit 1 0), .system (.reap 1)], List.replicate 4 (.system .os),
        [.osUnblock, .channel (.launcher (.wait .taken)), .channel (.launcher .deinit)],
        List.replicate 6 (.system (.worker true))])
      (by decide +kernel)

end Reporting

end ProcessInfoNode

end LaunchManager
