import LaunchManager.Library.Runs
import Mathlib.Data.List.Basic

/-!
# The Running handshake

The launcher and a reporting process share two semaphores. The process posts its report and
waits for the reply, the launcher takes the report and posts the reply, and a final post of
the process tells the launcher that the semaphores are no longer needed. Time is counted in
milliseconds. A wait ends at its deadline at the latest, and with a timeout only if there is
nothing to take.
-/

namespace LaunchManager

open Option List

set_option autoImplicit false

inductive OsalReturn where
  | success
  | fail
  | timeout
  deriving DecidableEq, Repr

/-- How a call of `sem_timedwait_monotonic` that was not interrupted ends. -/
inductive WaitOutcome where
  | taken
  | timedOut
  | failed
  deriving DecidableEq, Repr

/-- `Semaphore::timedWait`: the value of the semaphore after the wait, and the result. -/
def timedWait (now deadline value : Nat) : WaitOutcome → Option (Nat × OsalReturn)
  | .taken => if 0 < value then some (value - 1, .success) else none
  | .timedOut => if value = 0 ∧ deadline ≤ now then some (value, .timeout) else none
  | .failed => some (value, .fail)

theorem timedWait_cases {now deadline value value' : Nat} {o : WaitOutcome} {r : OsalReturn}
    (h : timedWait now deadline value o = some (value', r)) :
    (o = .taken ∧ value = value' + 1 ∧ r = .success) ∨
      (o = .timedOut ∧ value = 0 ∧ value' = 0 ∧ r = .timeout) ∨
      (o = .failed ∧ value' = value ∧ r = .fail) := by
  cases o with
  | taken =>
    obtain ⟨hpos, heq⟩ := ite_none_right_eq_some.mp h
    cases heq
    exact .inl ⟨rfl, by omega, rfl⟩
  | timedOut =>
    obtain ⟨⟨hzero, -⟩, heq⟩ := ite_none_right_eq_some.mp h
    cases heq
    exact .inr (.inl ⟨rfl, hzero, hzero, rfl⟩)
  | failed =>
    cases h
    exact .inr (.inr ⟨rfl, rfl, rfl⟩)

inductive Launcher where
  | before
  | waitingReport (deadline : Nat)
  | postingReply (result : OsalReturn)
  | waitingFinal (deadline : Nat)
  | deinit (result : OsalReturn)
  | returned (result : OsalReturn)
  deriving DecidableEq, Repr

/-- Where `reportKRunningtoDaemon` is; `idle` is outside of `ReportRunningState`. -/
inductive Client where
  | idle
  | opening
  | closing
  | posting
  | waiting (deadline : Nat)
  | postingFinal
  deriving DecidableEq, Repr

inductive ReportError where
  | communicationError
  | invalidTransition
  deriving DecidableEq, Repr

/-- The semaphores, the two parties, the descriptor of the process and its flag `reported`. The
last fields are history variables: when the launcher was called and with which timeout, the posts
of the process on `send_sync_` and when they were taken, when the process began to wait and when
it received the reply, and the result of its last call. -/
structure Handshake where
  now : Nat := 0
  sendSync : Nat := 0
  replySync : Nat := 0
  destroyed : Bool := false
  launcher : Launcher := .before
  client : Client := .idle
  fdOpen : Bool := true
  reported : Bool := false
  startedAt : Nat := 0
  timeout : Option Nat := none
  reports : Nat := 0
  taken : List Nat := []
  waitedFrom : Nat := 0
  received : Option Nat := none
  result : Option (Except ReportError Unit) := none

namespace Handshake

def maxRunningDelay : Nat := 1000

def finalDelay : Nat := 100

/-- `sync` says whether the pointer to the shared memory is valid. -/
inductive LauncherAct where
  | waitForkRunning (sync : Bool) (timeout : Option Nat)
  | wait (outcome : WaitOutcome)
  | post (ok : Bool)
  | deinit
  deriving DecidableEq, Repr

/-- `openChannel` stands for `fstat`, `mmap` and the checks of type and pid. A `close` that fails
may or may not leave the descriptor open. -/
inductive ClientAct where
  | reportRunningState
  | openChannel (ok : Bool)
  | close (ok stillOpen : Bool)
  | post (ok : Bool)
  | wait (outcome : WaitOutcome)
  deriving DecidableEq, Repr

inductive Act where
  | tick (time : Nat)
  | launcher (a : LauncherAct)
  | client (a : ClientAct)
  deriving DecidableEq, Repr

def take (s : Handshake) : WaitOutcome → List Nat
  | .taken => s.now :: s.taken
  | .timedOut | .failed => s.taken

/-- `waitForkRunning`. Only `kFail` keeps the launcher from waiting for the final post. -/
def stepLauncher (s : Handshake) (a : LauncherAct) : Option Handshake :=
  match s.launcher, a with
  | .before, .waitForkRunning sync timeout => some (
    if sync then
      { s with
        startedAt := s.now
        timeout := timeout
        launcher := match timeout with
          | some t => .waitingReport (s.now + t)
          | none => .postingReply .success }
    else { s with launcher := .returned .fail })
  | .waitingReport deadline, .wait o =>
    (timedWait s.now deadline s.sendSync o).map fun (value, result) =>
      { s with sendSync := value, launcher := .postingReply result, taken := s.take o }
  | .postingReply result, .post ok =>
    let result := if ok then result else .fail
    some { s with
      replySync := if ok then s.replySync + 1 else s.replySync
      launcher :=
        if result = .fail ∨ s.timeout = none then .deinit result
        else .waitingFinal (s.now + finalDelay) }
  | .waitingFinal deadline, .wait o =>
    (timedWait s.now deadline s.sendSync o).map fun (value, result) =>
      { s with sendSync := value, launcher := .deinit result, taken := s.take o }
  | .deinit result, .deinit => some { s with destroyed := true, launcher := .returned result }
  | _, _ => none

def returnError (s : Handshake) (e : ReportError) : Handshake :=
  { s with client := .idle, result := some (.error e) }

/-- `ReportRunningState`. Only `kFail` is taken for a missing reply. -/
def stepClient (s : Handshake) (a : ClientAct) : Option Handshake :=
  match s.client, a with
  | .idle, .reportRunningState => some (
    if s.reported then s.returnError .invalidTransition else { s with client := .opening })
  | .opening, .openChannel ok => some (
    if ok = true ∧ s.fdOpen = true then { s with client := .closing }
    else s.returnError .communicationError)
  | .closing, .close ok stillOpen => some (
    if ok then { s with client := .posting, fdOpen := false }
    else { s.returnError .communicationError with fdOpen := stillOpen })
  | .posting, .post ok => some (
    if ok then
      { s with
        client := .waiting (s.now + maxRunningDelay)
        sendSync := s.sendSync + 1
        reports := s.reports + 1
        waitedFrom := s.now
        received := none }
    else s.returnError .communicationError)
  | .waiting deadline, .wait o =>
    (timedWait s.now deadline s.replySync o).map fun (value, result) =>
      if result = .fail then { s.returnError .communicationError with replySync := value }
      else
        { s with
          client := .postingFinal
          replySync := value
          received := if o = .taken then some s.now else none }
  | .postingFinal, .post ok => some (
    if ok then
      { s with
        client := .idle
        sendSync := s.sendSync + 1
        reports := s.reports + 1
        reported := true
        result := some (.ok ()) }
    else s.returnError .communicationError)
  | _, _ => none

def deadlines (s : Handshake) : List Nat :=
  (match s.launcher with
    | .waitingReport d | .waitingFinal d => [d]
    | .before | .postingReply _ | .deinit _ | .returned _ => []) ++
  match s.client with
    | .waiting d => [d]
    | .idle | .opening | .closing | .posting | .postingFinal => []

def step (s : Handshake) : Act → Option Handshake
  | .tick time =>
    if ∀ d ∈ s.deadlines, s.now + time ≤ d then some { s with now := s.now + time } else none
  | .launcher a => s.stepLauncher a
  | .client a => s.stepClient a

section Client
variable {s s' : Handshake}

inductive ClientStep (s : Handshake) : ClientAct → Handshake → Prop
  | refused (hpc : s.client = .idle) (hreported : s.reported = true) :
    ClientStep s .reportRunningState (s.returnError .invalidTransition)
  | called (hpc : s.client = .idle) (hreported : s.reported = false) :
    ClientStep s .reportRunningState { s with client := .opening }
  | opened (hpc : s.client = .opening) (hopen : s.fdOpen = true) :
    ClientStep s (.openChannel true) { s with client := .closing }
  | notOpened (ok : Bool) (hpc : s.client = .opening) :
    ClientStep s (.openChannel ok) (s.returnError .communicationError)
  | closed (stillOpen : Bool) (hpc : s.client = .closing) :
    ClientStep s (.close true stillOpen) { s with client := .posting, fdOpen := false }
  | notClosed (stillOpen : Bool) (hpc : s.client = .closing) :
    ClientStep s (.close false stillOpen)
      { s.returnError .communicationError with fdOpen := stillOpen }
  | reported (hpc : s.client = .posting) :
    ClientStep s (.post true) { s with
      client := .waiting (s.now + maxRunningDelay), sendSync := s.sendSync + 1,
      reports := s.reports + 1, waitedFrom := s.now, received := none }
  | notPosted (hpc : s.client = .posting ∨ s.client = .postingFinal) :
    ClientStep s (.post false) (s.returnError .communicationError)
  | notWaited (d : Nat) (hpc : s.client = .waiting d) :
    ClientStep s (.wait .failed) (s.returnError .communicationError)
  | waited (d : Nat) (o : WaitOutcome) (value : Nat) (r : OsalReturn) (hpc : s.client = .waiting d)
    (hwait : timedWait s.now d s.replySync o = some (value, r)) (hr : r ≠ .fail) :
    ClientStep s (.wait o) { s with
      client := .postingFinal, replySync := value,
      received := if o = .taken then some s.now else none }
  | finished (hpc : s.client = .postingFinal) :
    ClientStep s (.post true) { s with
      client := .idle, sendSync := s.sendSync + 1, reports := s.reports + 1, reported := true,
      result := some (.ok ()) }

theorem clientStep_of_step {a : ClientAct} (hs : s.stepClient a = some s') : ClientStep s a s' := by
  unfold Handshake.stepClient at hs
  split at hs
  case h_1 hpc =>
    cases hs
    split
    · rename_i hreported
      exact .refused hpc hreported
    · rename_i hreported
      exact .called hpc (eq_false_of_ne_true hreported)
  case h_2 ok hpc =>
    cases hs
    split
    · rename_i hopen
      obtain ⟨rfl, hopen⟩ := hopen
      exact .opened hpc hopen
    · exact .notOpened ok hpc
  case h_3 ok stillOpen hpc =>
    cases hs
    cases ok with
    | true => exact .closed stillOpen hpc
    | false => exact .notClosed stillOpen hpc
  case h_4 ok hpc =>
    cases hs
    cases ok with
    | true => exact .reported hpc
    | false => exact .notPosted (.inl hpc)
  case h_5 d o hpc =>
    obtain ⟨⟨value, r⟩, hwait, rfl⟩ := map_eq_some_iff.mp hs
    simp only
    split
    · rename_i hr
      subst hr
      rcases timedWait_cases hwait with ⟨-, -, ⟨⟩⟩ | ⟨-, -, -, ⟨⟩⟩ | ⟨rfl, rfl, -⟩
      exact .notWaited d hpc
    · rename_i hr
      exact .waited d o value r hpc hwait hr
  case h_6 ok hpc =>
    cases hs
    cases ok with
    | true => exact .finished hpc
    | false => exact .notPosted (.inr hpc)
  case h_7 => cases hs

end Client

section Launcher
variable {s s' : Handshake} {a : Act}

/-- The wait for the report is over in vain, and the one for the final post is not over. -/
def MissedReport (s : Handshake) : Prop :=
  match s.launcher with
  | .postingReply .timeout => True
  | .waitingFinal _ => s.taken = []
  | _ => False

instance (s : Handshake) : Decidable s.MissedReport :=
  match h : s.launcher with
  | .postingReply .timeout => isTrue (by rw [MissedReport, h]; trivial)
  | .waitingFinal _ => decidable_of_iff (s.taken = []) (by rw [MissedReport, h])
  | .postingReply .success | .postingReply .fail | .before | .waitingReport _ | .deinit _
  | .returned _ => isFalse (by rw [MissedReport, h]; exact id)

/-- The process does not make its first post when the wait for it has timed out and the launcher
is about to wait for the final one. -/
def ReportsInTime (s : Handshake) : Act → Prop
  | .client (.post true) => s.client = .posting → ¬ s.MissedReport
  | _ => True

instance (s : Handshake) (a : Act) : Decidable (ReportsInTime s a) :=
  match a with
  | .client (.post true) => inferInstanceAs (Decidable (s.client = .posting → ¬ s.MissedReport))
  | .client (.post false) | .client .reportRunningState | .client (.openChannel _)
  | .client (.close _ _) | .client (.wait _) | .tick _ | .launcher _ => isTrue trivial

/-- The process has posted what it should have by now, and has no descriptor for more. -/
def Posted (s : Handshake) : Prop :=
  match s.client with
  | .idle | .opening => s.reports ≤ 2 ∧ (s.fdOpen = true → s.reports = 0)
  | .closing => s.reports = 0
  | .posting => s.reports = 0 ∧ s.fdOpen = false
  | .waiting _ | .postingFinal => s.reports = 1 ∧ s.fdOpen = false

def FirstTaken (s : Handshake) (timeout : Nat) : Prop :=
  ∃ time, s.taken = [time] ∧ time ≤ s.startedAt + timeout

def Waited (s : Handshake) : Prop :=
  match s.launcher with
  | .before => s.taken = []
  | .waitingReport d => s.taken = [] ∧ s.now ≤ d ∧ ∃ t, s.timeout = some t ∧ d = s.startedAt + t
  | .postingReply r => ∀ t, s.timeout = some t →
    r = .success ∧ s.FirstTaken t ∨ r = .timeout ∧ s.taken = [] ∧ s.reports = 0 ∨ r = .fail
  | .waitingFinal _ => ∀ t, s.timeout = some t → s.FirstTaken t ∨ s.taken = [] ∧ s.reports = 0
  | .deinit r | .returned r => r = .success → ∀ t, s.timeout = some t →
    ∃ later time, s.taken = [later, time] ∧ time ≤ s.startedAt + t

structure Sound (s : Handshake) : Prop where
  posted : s.Posted
  tokens : s.reports = s.sendSync + s.taken.length
  waited : s.Waited

inductive LauncherStep (s : Handshake) : Handshake → Prop
  | invalid (hpc : s.launcher = .before) : LauncherStep s { s with launcher := .returned .fail }
  | start (t : Nat) (hpc : s.launcher = .before) :
    LauncherStep s { s with
      startedAt := s.now, timeout := some t, launcher := .waitingReport (s.now + t) }
  | ignore (hpc : s.launcher = .before) :
    LauncherStep s { s with
      startedAt := s.now, timeout := none, launcher := .postingReply .success }
  | report (d : Nat) (o : WaitOutcome) (value : Nat) (r : OsalReturn)
    (hpc : s.launcher = .waitingReport d)
    (hwait : timedWait s.now d s.sendSync o = some (value, r)) :
    LauncherStep s { s with sendSync := value, launcher := .postingReply r, taken := s.take o }
  | replied (r : OsalReturn) (t : Nat) (hpc : s.launcher = .postingReply r) (hr : r ≠ .fail)
    (htimeout : s.timeout = some t) :
    LauncherStep s { s with
      replySync := s.replySync + 1, launcher := .waitingFinal (s.now + finalDelay) }
  | leave (r r' : OsalReturn) (reply : Nat) (hpc : s.launcher = .postingReply r)
    (hr' : r' = .fail ∨ s.timeout = none) :
    LauncherStep s { s with replySync := reply, launcher := .deinit r' }
  | final (d : Nat) (o : WaitOutcome) (value : Nat) (r : OsalReturn)
    (hpc : s.launcher = .waitingFinal d)
    (hwait : timedWait s.now d s.sendSync o = some (value, r)) :
    LauncherStep s { s with sendSync := value, launcher := .deinit r, taken := s.take o }
  | deinit (r : OsalReturn) (hpc : s.launcher = .deinit r) :
    LauncherStep s { s with destroyed := true, launcher := .returned r }

theorem launcherStep_of_step {a : LauncherAct} (hs : s.stepLauncher a = some s') :
    LauncherStep s s' := by
  unfold Handshake.stepLauncher at hs
  split at hs
  case h_1 sync timeout hpc =>
    cases hs
    cases sync with
    | false => exact .invalid hpc
    | true =>
      cases timeout with
      | none => exact .ignore hpc
      | some t => exact .start t hpc
  case h_2 d o hpc =>
    obtain ⟨⟨value, r⟩, hwait, rfl⟩ := map_eq_some_iff.mp hs
    exact .report d o value r hpc hwait
  case h_3 r ok hpc =>
    cases hs
    by_cases hleave : (if ok then r else .fail) = .fail ∨ s.timeout = none
    · simp only [if_pos hleave]
      exact .leave r _ _ hpc hleave
    · simp only [if_neg hleave]
      obtain ⟨hr, htimeout⟩ := not_or.mp hleave
      obtain ⟨t, ht⟩ := ne_none_iff_exists'.mp htimeout
      cases ok with
      | false => exact absurd rfl hr
      | true => exact .replied r t hpc hr ht
  case h_4 d o hpc =>
    obtain ⟨⟨value, r⟩, hwait, rfl⟩ := map_eq_some_iff.mp hs
    exact .final d o value r hpc hwait
  case h_5 r hpc =>
    cases hs
    exact .deinit r hpc
  case h_6 => cases hs

theorem Sound.stepLauncher (h : Sound s) {a : LauncherAct} (hs : s.stepLauncher a = some s') :
    Sound s' := by
  obtain ⟨hposted, htokens, hwaited⟩ := h
  unfold Waited at hwaited
  cases launcherStep_of_step hs with
  | invalid hpc => exact ⟨hposted, htokens, fun hr => by cases hr⟩
  | start t hpc =>
    rw [hpc] at hwaited
    exact ⟨hposted, htokens, hwaited, Nat.le_add_right _ _, t, rfl, rfl⟩
  | ignore hpc => exact ⟨hposted, htokens, fun t ht => by cases ht⟩
  | report d o value r hpc hwait =>
    rw [hpc] at hwaited
    obtain ⟨hnone, hle, t, htimeout, rfl⟩ := hwaited
    rw [hnone, length_nil] at htokens
    rcases timedWait_cases hwait with ⟨rfl, hvalue, rfl⟩ | ⟨rfl, hzero, rfl, rfl⟩ | ⟨rfl, rfl, rfl⟩
    · refine ⟨hposted, ?_, ?_⟩
      · simp only [take, hnone, length_singleton]
        omega
      · intro t' ht'
        cases htimeout.symm.trans ht'
        exact .inl ⟨rfl, s.now, by simp only [take, hnone], hle⟩
    · refine ⟨hposted, ?_, ?_⟩
      · simp only [take, hnone, length_nil]
        omega
      · intro t' _
        exact .inr (.inl ⟨rfl, hnone, by simp only; omega⟩)
    · refine ⟨hposted, ?_, fun _ _ => .inr (.inr rfl)⟩
      simp only [take, hnone, length_nil]
      omega
  | replied r t hpc hr htimeout =>
    rw [hpc] at hwaited
    refine ⟨hposted, htokens, fun t' ht' => ?_⟩
    rcases hwaited t' ht' with ⟨-, hfirst⟩ | ⟨-, hmissed⟩ | rfl
    · exact .inl hfirst
    · exact .inr hmissed
    · exact absurd rfl hr
  | leave r r' reply hpc hr' =>
    refine ⟨hposted, htokens, ?_⟩
    rintro rfl t ht
    rcases hr' with hr' | hnone
    · cases hr'
    · cases hnone.symm.trans ht
  | final d o value r hpc hwait =>
    rw [hpc] at hwaited
    rcases timedWait_cases hwait with ⟨rfl, hvalue, rfl⟩ | ⟨rfl, hzero, rfl, rfl⟩ | ⟨rfl, rfl, rfl⟩
    · refine ⟨hposted, ?_, ?_⟩
      · simp only [take, length_cons]
        omega
      · intro _ t ht
        rcases hwaited t ht with ⟨time, htaken, hle⟩ | ⟨htaken, hreports⟩
        · exact ⟨s.now, time, by simp only [take, htaken], hle⟩
        · omega
    · refine ⟨hposted, ?_, fun hr => by cases hr⟩
      simp only [take]
      omega
    · exact ⟨hposted, htokens, fun hr => by cases hr⟩
  | deinit r hpc =>
    rw [hpc] at hwaited
    exact ⟨hposted, htokens, hwaited⟩

theorem Waited.post (h : s.Waited) (hmissed : s.reports = 0 → ¬ s.MissedReport)
    (hlauncher : s'.launcher = s.launcher) (htaken : s'.taken = s.taken) (hnow : s'.now = s.now)
    (htimeout : s'.timeout = s.timeout) (hstarted : s'.startedAt = s.startedAt) : s'.Waited := by
  unfold Waited MissedReport FirstTaken at *
  rw [hlauncher, htaken, hnow, htimeout, hstarted]
  cases hpc : s.launcher with
  | postingReply r =>
    rw [hpc] at h hmissed
    intro t ht
    rcases h t ht with hfirst | ⟨rfl, -, hreports⟩ | hfail
    · exact .inl hfirst
    · exact absurd trivial (hmissed hreports)
    · exact .inr (.inr hfail)
  | waitingFinal d =>
    rw [hpc] at h hmissed
    intro t ht
    rcases h t ht with hfirst | ⟨hnone, hreports⟩
    · exact .inl hfirst
    · exact absurd hnone (hmissed hreports)
  | before | waitingReport d | deinit r | returned r =>
    rw [hpc] at h
    exact h

theorem Sound.stepClient (h : Sound s) {a : ClientAct} (hok : ReportsInTime s (.client a))
    (hs : s.stepClient a = some s') : Sound s' := by
  obtain ⟨hposted, htokens, hwaited⟩ := h
  unfold Posted at hposted
  cases clientStep_of_step hs with
  | refused hpc hreported | called hpc hreported | notOpened ok hpc
  | waited d o value r hpc hwait hr =>
    rw [hpc] at hposted
    exact ⟨hposted, htokens, hwaited⟩
  | opened hpc hopen =>
    rw [hpc] at hposted
    exact ⟨hposted.2 hopen, htokens, hwaited⟩
  | closed stillOpen hpc =>
    rw [hpc] at hposted
    exact ⟨⟨hposted, rfl⟩, htokens, hwaited⟩
  | notClosed stillOpen hpc =>
    rw [hpc] at hposted
    exact ⟨⟨hposted ▸ Nat.zero_le 2, fun _ => hposted⟩, htokens, hwaited⟩
  | reported hpc =>
    rw [hpc] at hposted
    refine ⟨⟨congrArg (· + 1) hposted.1, hposted.2⟩, ?_, ?_⟩
    · simp only
      omega
    · exact hwaited.post (fun _ => hok hpc) rfl rfl rfl rfl rfl
  | notPosted hpc =>
    have hclosed : s.reports ≤ 2 ∧ s.fdOpen = false := by
      rcases hpc with hpc | hpc <;> rw [hpc] at hposted <;> exact ⟨by omega, hposted.2⟩
    refine ⟨⟨hclosed.1, fun hopen => ?_⟩, htokens, hwaited⟩
    cases hclosed.2.symm.trans hopen
  | notWaited d hpc =>
    rw [hpc] at hposted
    refine ⟨⟨by simp only [returnError]; omega, fun hopen => ?_⟩, htokens, hwaited⟩
    cases hposted.2.symm.trans hopen
  | finished hpc =>
    rw [hpc] at hposted
    refine ⟨⟨?_, fun hopen => ?_⟩, ?_, ?_⟩
    · simp only
      omega
    · cases hposted.2.symm.trans hopen
    · simp only
      omega
    · exact hwaited.post (fun hzero => by omega) rfl rfl rfl rfl rfl

theorem Sound.tick (h : Sound s) {time : Nat} (hdue : ∀ d ∈ s.deadlines, s.now + time ≤ d) :
    Sound { s with now := s.now + time } := by
  refine ⟨h.posted, h.tokens, ?_⟩
  have hwaited := h.waited
  unfold Waited at hwaited ⊢
  cases hpc : s.launcher with
  | waitingReport d =>
    rw [hpc] at hwaited
    obtain ⟨hnone, -, hdeadline⟩ := hwaited
    refine ⟨hnone, hdue d ?_, hdeadline⟩
    rw [deadlines, hpc]
    exact mem_append_left _ (mem_singleton_self d)
  | before | postingReply r | waitingFinal d | deinit r | returned r =>
    rw [hpc] at hwaited
    exact hwaited

theorem Sound.step (h : Sound s) (hok : ReportsInTime s a) (hs : s.step a = some s') :
    Sound s' := by
  cases a with
  | tick time =>
    obtain ⟨hdue, ⟨⟩⟩ := ite_none_right_eq_some.mp hs
    exact h.tick hdue
  | launcher a => exact h.stepLauncher hs
  | client a => exact h.stepClient hok hs

/-- The process will use the semaphores again in the call it is in. -/
def usesSemaphores (s : Handshake) : Bool :=
  match s.client with
  | .posting | .waiting _ | .postingFinal => true
  | .idle | .opening | .closing => false

theorem running_after_handshake (hrun : Runs.Run step ReportsInTime {} s) {t : Nat}
    (htimeout : s.timeout = some t) (hsuccess : s.launcher = .returned .success) :
    (∃ time, s.taken.getLast? = some time ∧ time ≤ s.startedAt + t) ∧
      s.reports = 2 ∧ s.usesSemaphores = false := by
  have h : Sound s := by
    refine hrun.invariant _ (fun hi hok hs => hi.step hok hs) ?_
    exact ⟨⟨Nat.zero_le 2, fun _ => rfl⟩, rfl, rfl⟩
  obtain ⟨hposted, htokens, hwaited⟩ := h
  unfold Waited at hwaited
  rw [hsuccess] at hwaited
  obtain ⟨later, time, htaken, hle⟩ := hwaited rfl t htimeout
  rw [htaken, length_cons, length_singleton] at htokens
  refine ⟨⟨time, by rw [htaken]; rfl, hle⟩, ?_⟩
  unfold Posted at hposted
  unfold usesSemaphores
  cases hpc : s.client with
  | idle | opening =>
    rw [hpc] at hposted
    exact ⟨by omega, rfl⟩
  | closing | posting | waiting d | postingFinal =>
    rw [hpc] at hposted
    omega

theorem running_after_handshake_in_time :
    ∃ s : Handshake, s.timeout = some 10 ∧ s.launcher = .returned .success ∧ s.taken = [7, 5] ∧
      (∃ time, s.taken.getLast? = some time ∧ time ≤ s.startedAt + 10) ∧
      s.reports = 2 ∧ s.usesSemaphores = false := by
  obtain ⟨s, hrun, htimeout, hsuccess, htaken⟩ := Runs.Run.exists_of_exec step ReportsInTime {}
    (fun s => s.timeout = some 10 ∧ s.launcher = .returned .success ∧ s.taken = [7, 5])
    [.launcher (.waitForkRunning true (some 10)), .client .reportRunningState,
      .client (.openChannel true), .client (.close true false), .tick 5, .client (.post true),
      .launcher (.wait .taken), .launcher (.post true), .tick 2, .client (.wait .taken),
      .client (.post true), .launcher (.wait .taken), .launcher .deinit] (by decide +kernel)
  exact ⟨s, htimeout, hsuccess, htaken, running_after_handshake hrun htimeout hsuccess⟩

/-- The report comes after the timeout and is taken for the final post. -/
theorem late_report_taken_for_final :
    ∃ s, Runs.Run step Runs.anyStep {} s ∧ s.timeout = some 10 ∧ s.startedAt = 0 ∧
      s.launcher = .returned .success ∧ s.destroyed = true ∧ s.taken = [60] ∧ s.reports = 1 ∧
      s.client = .waiting 1060 :=
  Runs.Run.exists_of_exec _ _ _ _
    [.launcher (.waitForkRunning true (some 10)), .tick 10, .launcher (.wait .timedOut),
      .launcher (.post true), .client .reportRunningState, .client (.openChannel true),
      .client (.close true false), .tick 50, .client (.post true), .launcher (.wait .taken),
      .launcher .deinit] (by decide +kernel)

end Launcher

section Reporting
variable {s s' : Handshake} {a : Act}

/-- The reply has been posted when the wait for it ends, and once the descriptor is closed no call
fails. -/
def Answered (s : Handshake) : Act → Prop
  | .client (.wait o) => 0 < s.replySync ∧ o ≠ .failed
  | .client (.post ok) => ok = true
  | .client (.close ok stillOpen) => ok = true ∨ stillOpen = true
  | .client .reportRunningState | .client (.openChannel _) | .tick _ | .launcher _ => True

instance (s : Handshake) (a : Act) : Decidable (Answered s a) :=
  match a with
  | .client (.wait _) => inferInstanceAs (Decidable (_ ∧ _))
  | .client (.post _) => inferInstanceAs (Decidable (_ = _))
  | .client (.close _ _) => inferInstanceAs (Decidable (_ ∨ _))
  | .client .reportRunningState | .client (.openChannel _) | .tick _ | .launcher _ => isTrue trivial

def ReceivedInTime (s : Handshake) : Prop :=
  ∃ time, s.received = some time ∧ time ≤ s.waitedFrom + maxRunningDelay

/-- Where a process that has not reported is: it has its descriptor or is about to report. -/
def Reporting (s : Handshake) : Prop :=
  match s.client with
  | .idle => s.reported = true ∧ s.ReceivedInTime ∨
    s.reported = false ∧ s.fdOpen = true ∧ s.result ≠ some (.ok ())
  | .opening | .closing => s.reported = false ∧ s.fdOpen = true ∧ s.result ≠ some (.ok ())
  | .posting => s.reported = false ∧ s.result ≠ some (.ok ())
  | .waiting d => s.reported = false ∧ s.result ≠ some (.ok ()) ∧
    s.now ≤ d ∧ d = s.waitedFrom + maxRunningDelay
  | .postingFinal => s.reported = false ∧ s.result ≠ some (.ok ()) ∧ s.ReceivedInTime

theorem Reporting.stepClient (h : s.Reporting) {a : ClientAct} (hok : Answered s (.client a))
    (hs : s.stepClient a = some s') : s'.Reporting := by
  unfold Reporting at h
  cases clientStep_of_step hs with
  | refused hpc hreported =>
    rw [hpc] at h
    rcases h with hdone | ⟨hnot, -⟩
    · exact .inl hdone
    · cases hreported.symm.trans hnot
  | called hpc hreported =>
    rw [hpc] at h
    rcases h with ⟨hdone, -⟩ | hnot
    · cases hreported.symm.trans hdone
    · exact hnot
  | opened hpc hopen =>
    rw [hpc] at h
    exact h
  | notOpened ok hpc =>
    rw [hpc] at h
    exact .inr ⟨h.1, h.2.1, nofun⟩
  | closed stillOpen hpc =>
    rw [hpc] at h
    exact ⟨h.1, h.2.2⟩
  | notClosed stillOpen hpc =>
    rw [hpc] at h
    rcases hok with hok | hopen
    · cases hok
    · exact .inr ⟨h.1, hopen, nofun⟩
  | reported hpc =>
    rw [hpc] at h
    exact ⟨h.1, h.2, Nat.le_add_right _ _, rfl⟩
  | notPosted hpc => cases hok
  | notWaited d hpc => exact absurd rfl hok.2
  | waited d o value r hpc hwait hr =>
    rw [hpc] at h
    obtain ⟨hnot, hresult, hle, rfl⟩ := h
    refine ⟨hnot, hresult, s.now, ?_, hle⟩
    rcases timedWait_cases hwait with ⟨rfl, -⟩ | ⟨-, hzero, -⟩ | ⟨-, -, rfl⟩
    · rfl
    · exact absurd hzero (Nat.ne_of_gt hok.1)
    · exact absurd rfl hr
  | finished hpc =>
    rw [hpc] at h
    exact .inl ⟨rfl, h.2.2⟩

theorem Reporting.stepLauncher (h : s.Reporting) {a : LauncherAct}
    (hs : s.stepLauncher a = some s') : s'.Reporting := by
  cases launcherStep_of_step hs <;> exact h

theorem Reporting.tick (h : s.Reporting) {time : Nat}
    (hdue : ∀ d ∈ s.deadlines, s.now + time ≤ d) : Reporting { s with now := s.now + time } := by
  unfold Reporting at h ⊢
  cases hpc : s.client with
  | waiting d =>
    rw [hpc] at h
    refine ⟨h.1, h.2.1, hdue d ?_, h.2.2.2⟩
    rw [deadlines, hpc]
    exact mem_append_right _ (mem_singleton_self d)
  | idle | opening | closing | posting | postingFinal =>
    rw [hpc] at h
    exact h

theorem Reporting.step (h : s.Reporting) (hok : Answered s a) (hs : s.step a = some s') :
    s'.Reporting := by
  cases a with
  | tick time =>
    obtain ⟨hdue, ⟨⟩⟩ := ite_none_right_eq_some.mp hs
    exact h.tick hdue
  | launcher a => exact h.stepLauncher hs
  | client a => exact h.stepClient hok hs

theorem Reporting.cases (h : s.Reporting) :
    s.client = .idle ∧ s.reported = true ∧ s.ReceivedInTime ∨
      s.reported = false ∧ s.result ≠ some (.ok ()) ∧ (s.client = .idle → s.fdOpen = true) := by
  unfold Reporting at h
  cases hpc : s.client with
  | idle =>
    rw [hpc] at h
    rcases h with ⟨hdone, hreceived⟩ | ⟨hnot, hopen, hresult⟩
    · exact .inl ⟨rfl, hdone, hreceived⟩
    · exact .inr ⟨hnot, hresult, fun _ => hopen⟩
  | opening | closing =>
    rw [hpc] at h
    exact .inr ⟨h.1, h.2.2, nofun⟩
  | posting =>
    rw [hpc] at h
    exact .inr ⟨h.1, h.2, nofun⟩
  | waiting d | postingFinal =>
    rw [hpc] at h
    exact .inr ⟨h.1, h.2.1, nofun⟩

theorem can_report (hpc : s.client = .idle) (hnot : s.reported = false) (hopen : s.fdOpen = true) :
    ∃ s' d, Runs.Run Handshake.step Answered s s' ∧ s'.client = .waiting d ∧
      s'.reports = s.reports + 1 := by
  have hexec : Runs.exec Handshake.step Answered s [.client .reportRunningState,
      .client (.openChannel true), .client (.close true false), .client (.post true)] = some
      { s with
        client := .waiting (s.now + maxRunningDelay), fdOpen := false, sendSync := s.sendSync + 1,
        reports := s.reports + 1, waitedFrom := s.now, received := none } := by
    simp [Runs.exec, Handshake.step, Handshake.stepClient, Answered, hpc, hnot, hopen]
  exact ⟨_, _, Runs.Run.of_exec hexec, rfl, rfl⟩

/-- A process is marked as reported only by the reply, and can report again after an error. -/
theorem reported_when_answered (hrun : Runs.Run step Answered {} s) :
    (s.reported = true → ∃ time, s.received = some time ∧ time ≤ s.waitedFrom + maxRunningDelay) ∧
      (s.result = some (.ok ()) → s.reported = true) ∧
      (s.client = .idle → ∀ e, s.result = some (.error e) → s.reported = false →
        ∃ s' d, Runs.Run step Answered s s' ∧ s'.client = .waiting d ∧
          s'.reports = s.reports + 1) := by
  have h : s.Reporting := by
    refine hrun.invariant _ (fun hi hok hs => hi.step hok hs) ?_
    exact .inr ⟨rfl, rfl, nofun⟩
  rcases h.cases with ⟨-, hdone, hreceived⟩ | ⟨hnot, hresult, hopen⟩
  · refine ⟨fun _ => hreceived, fun _ => hdone, ?_⟩
    intro _ _ _ hnot
    cases hdone.symm.trans hnot
  · refine ⟨?_, fun hok => absurd hok hresult, fun hpc _ _ _ => can_report hpc hnot (hopen hpc)⟩
    intro hdone
    cases hdone.symm.trans hnot

theorem reported_when_answered_again :
    ∃ s : Handshake, s.reported = true ∧ s.waitedFrom = 3 ∧ s.received = some 23 ∧
      ∃ time, s.received = some time ∧ time ≤ s.waitedFrom + maxRunningDelay := by
  obtain ⟨s, hrun, hdone, hfrom, hreceived⟩ := Runs.Run.exists_of_exec step Answered {}
    (fun s => s.reported = true ∧ s.waitedFrom = 3 ∧ s.received = some 23)
    [.client .reportRunningState, .client (.openChannel false), .tick 3,
      .client .reportRunningState, .client (.openChannel true), .client (.close true false),
      .client (.post true), .launcher (.waitForkRunning true (some 50)), .launcher (.wait .taken),
      .tick 20, .launcher (.post true), .client (.wait .taken), .client (.post true)]
    (by decide +kernel)
  exact ⟨s, hdone, hfrom, hreceived, (reported_when_answered hrun).1 hdone⟩

/-- Without its descriptor a process does not get as far as a post. -/
def Mute (n : Nat) (s : Handshake) : Prop :=
  (s.client = .idle ∨ s.client = .opening) ∧ s.fdOpen = false ∧ s.reported = false ∧ s.reports = n

theorem Mute.step {n : Nat} (h : Mute n s) (hs : s.step a = some s') : Mute n s' := by
  obtain ⟨hclient, hclosed, hnot, hreports⟩ := h
  cases a with
  | tick time =>
    obtain ⟨-, ⟨⟩⟩ := ite_none_right_eq_some.mp hs
    exact ⟨hclient, hclosed, hnot, hreports⟩
  | launcher a => cases launcherStep_of_step hs <;> exact ⟨hclient, hclosed, hnot, hreports⟩
  | client a =>
    cases clientStep_of_step hs with
    | refused hpc hreported | notOpened ok hpc => exact ⟨.inl rfl, hclosed, hnot, hreports⟩
    | called hpc hreported => exact ⟨.inr rfl, hclosed, hnot, hreports⟩
    | opened hpc hopen => cases hopen.symm.trans hclosed
    | closed _ hpc | notClosed _ hpc | reported hpc | notWaited _ hpc | waited _ _ _ _ hpc
    | finished hpc =>
      rw [hpc] at hclient
      rcases hclient with hidle | hopening
      · cases hidle
      · cases hopening
    | notPosted hpc =>
      rcases hpc with hpc | hpc <;> rw [hpc] at hclient <;> rcases hclient with hidle | hopening
      · cases hidle
      · cases hopening
      · cases hidle
      · cases hopening

/-- Without a reply the call returns success; when the wait fails, no later call reports. -/
theorem reported_without_reply :
    (∃ s, Runs.Run step Runs.anyStep {} s ∧ s.reported = true ∧ s.result = some (.ok ()) ∧
      s.launcher = .before ∧ s.received = none) ∧
    ∃ s, Runs.Run step Runs.anyStep {} s ∧ s.result = some (.error .communicationError) ∧
      ∀ s', Runs.Run step Runs.anyStep s s' → s'.reported = false ∧ s'.reports = s.reports := by
  refine ⟨?_, ?_⟩
  · exact Runs.Run.exists_of_exec _ _ _ _
      [.client .reportRunningState, .client (.openChannel true), .client (.close true false),
        .client (.post true), .tick 1000, .client (.wait .timedOut), .client (.post true)]
      (by decide +kernel)
  · obtain ⟨s, hrun, hresult, hmute⟩ := Runs.Run.exists_of_exec step Runs.anyStep {}
      (fun s => s.result = some (.error .communicationError) ∧
        (s.client = .idle ∧ s.fdOpen = false ∧ s.reported = false))
      [.client .reportRunningState, .client (.openChannel true), .client (.close true false),
        .client (.post true), .client (.wait .failed)] (by decide +kernel)
    refine ⟨s, hrun, hresult, fun s' hlater => ?_⟩
    have hend : Mute s.reports s' :=
      hlater.invariant _ (fun hi _ hs => hi.step hs) ⟨.inl hmute.1, hmute.2.1, hmute.2.2, rfl⟩
    exact hend.2.2

end Reporting

end Handshake

end LaunchManager
