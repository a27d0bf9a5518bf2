import LaunchManager.Library.Runs
import Mathlib.Data.Int.Init

/-!
# The watchdog

`WatchdogImpl` drives one watchdog device through its device file. The results of
the system calls are inputs of the calls that make them; a result that the code
ignores is left out. Of the requests to the device only the keep-alives are kept
apart from their results. A failed assertion or precondition ends the program.
-/

namespace LaunchManager

set_option autoImplicit false

open Runs

namespace Watchdog

/-- On Linux a device counts in seconds, on QNX in milliseconds. -/
inductive Target where
  | linux
  | qnx
  deriving DecidableEq, Repr

inductive ELibState where
  | idle
  | activated
  | react
  deriving DecidableEq, Repr

structure WatchdogConfig where
  deviceFilePath : String
  maxTimeoutMs : Nat
  deactivateOnShutdown : Bool
  requireMagicClose : Bool
  deriving DecidableEq, Repr

structure DeviceConfig where
  fileName : String := ""
  timeoutMin : Nat := 0
  timeoutMax : Nat := 0
  canBeDeactivated : Bool := true
  needsMagicClose : Bool := false
  deriving DecidableEq, Repr

structure WatchdogDevice where
  config : DeviceConfig := {}
  fileDescriptor : Int := -1
  deriving DecidableEq, Repr

inductive Abort where
  /-- An assertion on the file descriptor. -/
  | fileDescriptor
  /-- An access to the device when there is none. -/
  | noDevice
  /-- The precondition of `secToMs`. -/
  | timeoutTooBig
  deriving DecidableEq, Repr

end Watchdog

open Watchdog

/-- `openFiles` are the descriptors of the device file that the process holds, `keepAlives` is the
number of keep-alives that were sent. -/
structure Watchdog where
  watchdogDevice : Option WatchdogDevice := none
  state : ELibState := .idle
  openFiles : List Nat := []
  keepAlives : Nat := 0
  deriving DecidableEq, Repr

namespace Watchdog

namespace Target

def timeoutMinMillis : Target → Nat
  | .linux => 1000
  | .qnx => 100

def timeoutResolution : Target → Nat
  | .linux => 1000
  | .qnx => 1

/-- From the milliseconds of the configuration to the unit of the device. -/
def ofMs : Target → Nat → Int
  | .linux, ms => ms / 1000
  | .qnx, ms => ms

def toMs : Target → Int → Except Abort Int
  | .linux, t => if t < 2147483647 / 1000 then .ok (t * 1000) else .error .timeoutTooBig
  | .qnx, t => .ok t

end Target

def timeoutMaxMillis : Nat := 30 * 1000

def hasValidTimeout (target : Target) (config : DeviceConfig) : Bool :=
  target.timeoutMinMillis ≤ config.timeoutMax && config.timeoutMax ≤ timeoutMaxMillis &&
    config.timeoutMax % target.timeoutResolution == 0

def validateTimeoutWithCycleTime (cycleTimeNs : Int) (config : DeviceConfig) : Bool :=
  cycleTimeNs.tdiv 1000000 ≤ config.timeoutMax

def isValidDeviceConfig (target : Target) (w : Watchdog) (config : DeviceConfig)
    (cycleTimeNs : Int) : Bool :=
  w.watchdogDevice.isNone && hasValidTimeout target config &&
    validateTimeoutWithCycleTime cycleTimeNs config

def configureDevice (target : Target) (w : Watchdog) (config : DeviceConfig) (cycleTimeNs : Int) :
    Watchdog × Bool :=
  if w.state ≠ .idle then (w, false)
  else if !isValidDeviceConfig target w config cycleTimeNs then (w, false)
  else ({ w with watchdogDevice := some { config } }, true)

/-- Where the copy of the configuration runs out of memory, the device is reset. -/
def init (target : Target) (w : Watchdog) (config : WatchdogConfig) (cycleTimeNs : Int)
    (outOfMemory : Bool) : Watchdog × Bool :=
  if config.maxTimeoutMs > 65535 then (w, false)
  else if outOfMemory then ({ w with watchdogDevice := none }, false)
  else
    configureDevice target w
      { fileName := config.deviceFilePath
        timeoutMin := 0
        timeoutMax := config.maxTimeoutMs
        canBeDeactivated := config.deactivateOnShutdown
        needsMagicClose := config.requireMagicClose } cycleTimeNs

/-- What the system calls of `enable` return. A timeout is in the unit of the device; the one of
`setTimeout` is what the device has made of the wanted one. -/
structure EnableResults where
  opened : Option Nat
  getTimeout : Option Int := none
  getTimeLeft : Option Int := none
  setTimeout : Bool × Int := (false, 0)
  enableCard : Bool := false
  deriving DecidableEq, Repr

/-- `getConfiguredTimeout` and `getRemainingTime`; `none` when the request fails. -/
def getTime (target : Target) : Option Int → Except Abort (Option Int)
  | none => .ok none
  | some t => (target.toMs t).map some

def setTimeout (target : Target) (timeoutInMs : Nat) (result : Bool × Int) : Except Abort Bool := do
  let timeout ← target.toMs result.2
  let timeoutBefore ← target.toMs (target.ofMs timeoutInMs)
  return result.1 && timeoutBefore == timeout

def updateTimeout (target : Target) (device : WatchdogDevice) (configuredTimeoutOld : Int)
    (results : EnableResults) : Except Abort Bool := do
  if configuredTimeoutOld ≠ device.config.timeoutMax then
    match ← getTime target results.getTimeLeft with
    | none => return false
    | some _ => setTimeout target device.config.timeoutMax results.setTimeout
  else return true

/-- The device with its new descriptor, and whether it is enabled. -/
def enableDevice (target : Target) (device : WatchdogDevice) (results : EnableResults) :
    Except Abort (WatchdogDevice × Bool) := do
  if device.fileDescriptor ≠ -1 then throw .fileDescriptor
  match results.opened with
  | none => return ({ device with fileDescriptor := -1 }, false)
  | some fd =>
    let opened := { device with fileDescriptor := fd }
    match ← getTime target results.getTimeout with
    | none => return (opened, false)
    | some configuredTimeout =>
      let isSuccess ← updateTimeout target opened configuredTimeout results
      return (opened, isSuccess && results.enableCard)

def enable (target : Target) (w : Watchdog) (results : EnableResults) :
    Except Abort (Watchdog × Bool) :=
  if w.state ≠ .idle then .ok (w, false)
  else match w.watchdogDevice with
    | none => .ok (w, true)
    | some device => do
      let (device, wasEnabled) ← enableDevice target device results
      return ({ w with
        watchdogDevice := some device
        state := if wasEnabled then .activated else w.state
        openFiles := results.opened.toList ++ w.openFiles }, wasEnabled)

def assertDevice (w : Watchdog) : Except Abort WatchdogDevice :=
  match w.watchdogDevice with
  | none => .error .noDevice
  | some device => if 0 ≤ device.fileDescriptor then .ok device else .error .fileDescriptor

/-- The magic close, the request to stop and the close are made, and their results ignored; the
close releases the descriptor in any case. -/
def disable (w : Watchdog) : Except Abort Watchdog := do
  if w.state ≠ .activated then return w
  let device ← w.assertDevice
  if !device.config.canBeDeactivated then return w
  return { w with
    watchdogDevice := some { device with fileDescriptor := -1 }
    state := .idle
    openFiles := w.openFiles.erase device.fileDescriptor.toNat }

def serviceWatchdog (w : Watchdog) : Except Abort Watchdog := do
  if w.state ≠ .activated then return w
  let _ ← w.assertDevice
  return { w with keepAlives := w.keepAlives + 1 }

/-- It does not return; other threads go on. -/
def fireWatchdogReaction (target : Target) (w : Watchdog) (result : Bool × Int) :
    Except Abort Watchdog := do
  if w.state ≠ .activated then return w
  let _ ← w.assertDevice
  let _ ← setTimeout target 0 result
  return { w with state := .react }

inductive Call where
  | init (config : WatchdogConfig) (cycleTimeNs : Int) (outOfMemory : Bool)
  | enable (results : EnableResults)
  | disable
  | serviceWatchdog
  | fireWatchdogReaction (result : Bool × Int)
  deriving DecidableEq, Repr

def call (target : Target) (w : Watchdog) : Call → Except Abort (Watchdog × Bool)
  | .init config cycleTimeNs outOfMemory => .ok (init target w config cycleTimeNs outOfMemory)
  | .enable results => enable target w results
  | .disable => w.disable.map (·, true)
  | .serviceWatchdog => w.serviceWatchdog.map (·, true)
  | .fireWatchdogReaction result => (fireWatchdogReaction target w result).map (·, true)

def step (target : Target) (w : Watchdog) (c : Call) : Option Watchdog :=
  (call target w c).toOption.map Prod.fst

/-! ### The device file -/

def Succeeds (target : Target) (timeoutMax : Nat) (results : EnableResults) : Prop :=
  match results.getTimeout with
  | none => False
  | some t => results.enableCard = true ∧ ((target.toMs t).toOption = some (timeoutMax : Int) ∨
      results.getTimeLeft.isSome ∧ results.setTimeout = (true, target.ofMs timeoutMax))

/-- When `enable` has opened the device file, its requests succeed; and `init` does not run out of
memory once the watchdog is enabled. -/
def reliable (target : Target) (w : Watchdog) : Call → Prop
  | .init _ _ outOfMemory => outOfMemory = true → w.state = .idle
  | .enable results => w.state = .idle → results.opened.isSome → ∀ device ∈ w.watchdogDevice,
      Succeeds target device.config.timeoutMax results
  | .disable | .serviceWatchdog | .fireWatchdogReaction _ => True

/-- The device file is open when the watchdog is activated or reacts, and the device has its
descriptor. -/
def Consistent (w : Watchdog) : Prop :=
  match w.state with
  | .idle => w.openFiles = [] ∧ ∀ device ∈ w.watchdogDevice, device.fileDescriptor = -1
  | .activated | .react => ∃ (device : WatchdogDevice) (fd : Nat),
      w.watchdogDevice = some device ∧ device.fileDescriptor = fd ∧ w.openFiles = [fd]

section Consistent
variable {target : Target} {w w' : Watchdog} {device : WatchdogDevice} {results : EnableResults}

theorem toMs_eq (target : Target) (t : Int) :
    (∃ ms, target.toMs t = .ok ms) ∨ target.toMs t = .error .timeoutTooBig := by
  cases target with
  | qnx => exact .inl ⟨t, rfl⟩
  | linux =>
    rw [Target.toMs]
    split
    · exact .inl ⟨_, rfl⟩
    · exact .inr rfl

variable {t ms : Int}

theorem getTime_some (h : target.toMs t = .ok ms) : getTime target (some t) = .ok (some ms) := by
  rw [getTime, h]
  rfl

theorem getTime_some_error {e : Abort} (h : target.toMs t = .error e) :
    getTime target (some t) = .error e := by
  rw [getTime, h]
  rfl

theorem setTimeout_eq (target : Target) (timeoutInMs : Nat) (result : Bool × Int) :
    (∃ b, setTimeout target timeoutInMs result = .ok b) ∨
      setTimeout target timeoutInMs result = .error .timeoutTooBig := by
  obtain ⟨ms, hms⟩ | hms := toMs_eq target result.2
  · obtain ⟨before, hbefore⟩ | hbefore := toMs_eq target (target.ofMs timeoutInMs)
    · exact .inl ⟨result.1 && before == ms, by simp only [setTimeout, hms, hbefore]; rfl⟩
    · exact .inr (by simp only [setTimeout, hms, hbefore, bind, Except.bind])
  · exact .inr (by simp only [setTimeout, hms, bind, Except.bind])

theorem setTimeout_wanted (target : Target) (timeoutInMs : Nat) :
    setTimeout target timeoutInMs (true, target.ofMs timeoutInMs) = .ok true ∨
      setTimeout target timeoutInMs (true, target.ofMs timeoutInMs) = .error .timeoutTooBig := by
  obtain ⟨ms, hms⟩ | hms := toMs_eq target (target.ofMs timeoutInMs)
  · exact .inl (by simp [setTimeout, hms, bind, Except.bind, pure, Except.pure])
  · exact .inr (by simp only [setTimeout, hms, bind, Except.bind])

theorem updateTimeout_spec (device : WatchdogDevice) (hms : target.toMs t = .ok ms)
    (hset : (target.toMs t).toOption = some (device.config.timeoutMax : Int) ∨
      results.getTimeLeft.isSome ∧
        results.setTimeout = (true, target.ofMs device.config.timeoutMax)) :
    updateTimeout target device ms results = .ok true ∨
      updateTimeout target device ms results = .error .timeoutTooBig := by
  by_cases hsame : ms = device.config.timeoutMax
  · refine .inl ?_
    rw [updateTimeout, if_neg (by simp [hsame])]
    rfl
  · obtain heq | ⟨hleft, hset⟩ := hset
    · rw [hms] at heq
      exact absurd (Option.some.inj heq) hsame
    · obtain ⟨left, hleft⟩ := Option.isSome_iff_exists.mp hleft
      rw [updateTimeout, if_pos hsame, hleft]
      obtain ⟨leftMs, hleftMs⟩ | hleftMs := toMs_eq target left
      · rw [getTime_some hleftMs, hset]
        exact setTimeout_wanted target device.config.timeoutMax
      · rw [getTime_some_error hleftMs]
        exact .inr rfl

theorem enableDevice_spec (hclosed : device.fileDescriptor = -1)
    (hok : results.opened.isSome → Succeeds target device.config.timeoutMax results) :
    enableDevice target device results = .error .timeoutTooBig ∨
      (results.opened = none ∧ enableDevice target device results = .ok (device, false)) ∨
      ∃ fd : Nat, results.opened = some fd ∧
        enableDevice target device results = .ok ({ device with fileDescriptor := fd }, true) := by
  have hassert : ¬ device.fileDescriptor ≠ -1 := by simp [hclosed]
  cases hopen : results.opened with
  | none =>
    refine .inr (.inl ⟨rfl, ?_⟩)
    simp only [enableDevice, if_neg hassert, hopen]
    obtain ⟨config, fd⟩ := device
    cases hclosed
    rfl
  | some fd =>
    have hrequests := hok (by rw [hopen]; rfl)
    unfold Succeeds at hrequests
    cases htimeout : results.getTimeout with
    | none =>
      rw [htimeout] at hrequests
      exact hrequests.elim
    | some t =>
      rw [htimeout] at hrequests
      obtain ⟨hcard, hset⟩ := hrequests
      simp only [enableDevice, if_neg hassert, hopen, htimeout]
      obtain ⟨ms, hms⟩ | hms := toMs_eq target t
      · rw [getTime_some hms]
        obtain hupdate | hupdate := updateTimeout_spec
          { device with fileDescriptor := fd } hms hset
        · refine .inr (.inr ⟨fd, rfl, ?_⟩)
          simp only [bind, Except.bind, pure, Except.pure, hupdate, hcard, Bool.and_true]
        · refine .inl ?_
          simp only [bind, Except.bind, hupdate]
      · rw [getTime_some_error hms]
        exact .inl rfl

theorem Consistent.init (h : Consistent w) {config : WatchdogConfig} {cycleTimeNs : Int}
    {outOfMemory : Bool} (hok : outOfMemory = true → w.state = .idle) :
    Consistent (Watchdog.init target w config cycleTimeNs outOfMemory).1 := by
  unfold Watchdog.init
  split
  · exact h
  · split
    · next hmemory =>
      unfold Consistent at h ⊢
      rw [hok hmemory] at h
      simp only [hok hmemory]
      exact ⟨h.1, nofun⟩
    · unfold configureDevice
      split
      · exact h
      · next hidle =>
        split
        · exact h
        · have hidle : w.state = .idle := by simpa using hidle
          unfold Consistent at h ⊢
          rw [hidle] at h
          simp only [hidle]
          refine ⟨h.1, ?_⟩
          rintro device ⟨⟩
          rfl

theorem Consistent.enable (h : Consistent w) (hok : reliable target w (.enable results)) :
    Watchdog.enable target w results = .error .timeoutTooBig ∨
      Watchdog.enable target w results = .ok (w, false) ∨
      ∃ w', Watchdog.enable target w results = .ok (w', true) ∧ Consistent w' := by
  unfold Watchdog.enable
  split
  · exact .inr (.inl rfl)
  · next hidle =>
    have hidle : w.state = .idle := by simpa using hidle
    split
    · exact .inr (.inr ⟨w, rfl, h⟩)
    · next device hdevice =>
      have hconsistent := h
      unfold Consistent at hconsistent
      rw [hidle] at hconsistent
      obtain ⟨hnone, hclosed⟩ := hconsistent
      obtain herror | ⟨hopen, hfailed⟩ | ⟨fd, hopen, henabled⟩ := enableDevice_spec
        (hclosed device hdevice) fun hopen => hok hidle hopen device hdevice
      · exact .inl (by rw [herror]; rfl)
      · refine .inr (.inl ?_)
        rw [hfailed, hopen]
        simp only [bind, Except.bind, pure, Except.pure, Bool.false_eq_true, if_false,
          Option.toList_none, List.nil_append, ← hdevice]
      · refine .inr (.inr ⟨_, by rw [henabled]; rfl, ?_⟩)
        unfold Consistent
        simp only [if_true]
        exact ⟨_, fd, rfl, rfl, by rw [hopen, hnone]; rfl⟩

theorem Consistent.assertDevice (h : Consistent w) (hactive : w.state ≠ .idle) :
    ∃ (device : WatchdogDevice) (fd : Nat), w.assertDevice = .ok device ∧
      w.watchdogDevice = some device ∧ device.fileDescriptor = fd ∧ w.openFiles = [fd] := by
  have hopen : ∃ (device : WatchdogDevice) (fd : Nat),
      w.watchdogDevice = some device ∧ device.fileDescriptor = fd ∧ w.openFiles = [fd] := by
    unfold Consistent at h
    cases hstate : w.state with
    | idle => exact absurd hstate hactive
    | activated | react =>
      rw [hstate] at h
      exact h
  obtain ⟨device, fd, hdevice, hfd, hfiles⟩ := hopen
  refine ⟨device, fd, ?_, hdevice, hfd, hfiles⟩
  rw [Watchdog.assertDevice, hdevice]
  exact if_pos (hfd ▸ Int.natCast_nonneg fd)

theorem Consistent.disable (h : Consistent w) : ∃ w', w.disable = .ok w' ∧ Consistent w' := by
  unfold Watchdog.disable
  split
  · exact ⟨w, rfl, h⟩
  · next hactivated =>
    have hactivated : w.state = .activated := by simpa using hactivated
    obtain ⟨device, fd, hassert, hdevice, hfd, hfiles⟩ :=
      h.assertDevice (by rw [hactivated]; nofun)
    rw [hassert]
    cases hcan : device.config.canBeDeactivated with
    | false => exact ⟨w, by simp [hcan, bind, Except.bind, pure, Except.pure], h⟩
    | true =>
      refine ⟨{ w with
        watchdogDevice := some { device with fileDescriptor := -1 }
        state := .idle
        openFiles := w.openFiles.erase device.fileDescriptor.toNat }, ?_, ?_, ?_⟩
      · simp [hcan, bind, Except.bind, pure, Except.pure]
      · simp [hfiles, hfd]
      · rintro device ⟨⟩
        rfl

theorem Consistent.serviceWatchdog (h : Consistent w) :
    ∃ w', w.serviceWatchdog = .ok w' ∧ Consistent w' := by
  unfold Watchdog.serviceWatchdog
  split
  · exact ⟨w, rfl, h⟩
  · next hactivated =>
    have hactivated : w.state = .activated := by simpa using hactivated
    obtain ⟨device, fd, hassert, -⟩ := h.assertDevice (by rw [hactivated]; nofun)
    rw [hassert]
    exact ⟨{ w with keepAlives := w.keepAlives + 1 }, rfl, h⟩

theorem Consistent.fireWatchdogReaction (h : Consistent w) (target : Target) (result : Bool × Int) :
    Watchdog.fireWatchdogReaction target w result = .error .timeoutTooBig ∨
      ∃ w', Watchdog.fireWatchdogReaction target w result = .ok w' ∧ Consistent w' := by
  unfold Watchdog.fireWatchdogReaction
  split
  · exact .inr ⟨w, rfl, h⟩
  · next hactivated =>
    have hactivated : w.state = .activated := by simpa using hactivated
    obtain ⟨device, fd, hassert, hopen⟩ := h.assertDevice (by rw [hactivated]; nofun)
    rw [hassert]
    obtain ⟨b, hset⟩ | hset := setTimeout_eq target 0 result
    · refine .inr ⟨{ w with state := .react }, ?_, device, fd, hopen⟩
      simp only [bind, Except.bind, hset]
      rfl
    · refine .inl ?_
      simp only [bind, Except.bind, hset]

theorem Consistent.call (h : Consistent w) {c : Call} (hok : reliable target w c) :
    Watchdog.call target w c = .error .timeoutTooBig ∨
      ∃ w' b, Watchdog.call target w c = .ok (w', b) ∧ Consistent w' := by
  cases c with
  | init config cycleTimeNs outOfMemory => exact .inr ⟨_, _, rfl, h.init hok⟩
  | enable results =>
    obtain herror | hfailed | ⟨w', henabled, h'⟩ := h.enable hok
    · exact .inl herror
    · exact .inr ⟨w, false, hfailed, h⟩
    · exact .inr ⟨w', true, henabled, h'⟩
  | disable =>
    obtain ⟨w', hrun, h'⟩ := h.disable
    exact .inr ⟨w', true, by rw [Watchdog.call, hrun]; rfl, h'⟩
  | serviceWatchdog =>
    obtain ⟨w', hrun, h'⟩ := h.serviceWatchdog
    exact .inr ⟨w', true, by rw [Watchdog.call, hrun]; rfl, h'⟩
  | fireWatchdogReaction result =>
    obtain herror | ⟨w', hrun, h'⟩ := h.fireWatchdogReaction target result
    · exact .inl (by rw [Watchdog.call, herror]; rfl)
    · exact .inr ⟨w', true, by rw [Watchdog.call, hrun]; rfl, h'⟩

theorem Consistent.step {c : Call} (h : Consistent w) (hok : reliable target w c)
    (hstep : step target w c = some w') : Consistent w' := by
  obtain herror | ⟨w'', b, hcall, h''⟩ := h.call hok
  · simp [Watchdog.step, herror, Except.toOption] at hstep
  · simp only [Watchdog.step, hcall, Except.toOption, Option.map_some, Option.some.injEq] at hstep
    exact hstep ▸ h''

end Consistent

section React
variable {target : Target} {w w' : Watchdog}

theorem step_react {c : Call} (hreact : w.state = .react) (hstep : step target w c = some w') :
    w'.state = .react ∧ w'.keepAlives = w.keepAlives := by
  have hactivated : w.state ≠ .activated := by rw [hreact]; nofun
  have hidle : w.state ≠ .idle := by rw [hreact]; nofun
  have hsame : ∀ {b : Bool}, call target w c = .ok (w, b) → w' = w := by
    intro b hcall
    simpa [step, hcall, Except.toOption, eq_comm] using hstep
  cases c with
  | init config cycleTimeNs outOfMemory =>
    cases hstep
    rw [init, configureDevice, if_pos hidle]
    split
    · exact ⟨hreact, rfl⟩
    · split
      · exact ⟨hreact, rfl⟩
      · exact ⟨hreact, rfl⟩
  | enable results =>
    rw [hsame (b := false) (by rw [call, enable, if_pos hidle])]
    exact ⟨hreact, rfl⟩
  | disable =>
    rw [hsame (b := true) (by rw [call, disable, if_pos hactivated]; rfl)]
    exact ⟨hreact, rfl⟩
  | serviceWatchdog =>
    rw [hsame (b := true) (by rw [call, serviceWatchdog, if_pos hactivated]; rfl)]
    exact ⟨hreact, rfl⟩
  | fireWatchdogReaction result =>
    rw [hsame (b := true) (by rw [call, fireWatchdogReaction, if_pos hactivated]; rfl)]
    exact ⟨hreact, rfl⟩

theorem run_react (hreact : w.state = .react) (run : Run (step target) anyStep w w') :
    w'.keepAlives = w.keepAlives :=
  (run.invariant (fun v => v.state = .react ∧ v.keepAlives = w.keepAlives)
    (fun hv _ hstep => ⟨(step_react hv.1 hstep).1, (step_react hv.1 hstep).2.trans hv.2⟩)
    ⟨hreact, rfl⟩).2

theorem state_of_fireWatchdogReaction (hactivated : w.state = .activated) {result : Bool × Int}
    (hstep : step target w (.fireWatchdogReaction result) = some w') : w'.state = .react := by
  have hne : ¬ w.state ≠ .activated := by simp [hactivated]
  rw [step, call, fireWatchdogReaction, if_neg hne] at hstep
  cases hassert : w.assertDevice with
  | error e =>
    rw [hassert] at hstep
    cases hstep
  | ok device =>
    obtain ⟨b, hset⟩ | hset := setTimeout_eq target 0 result
    · simp only [hassert, hset, bind, Except.bind] at hstep
      cases hstep
      rfl
    · simp only [hassert, hset, bind, Except.bind] at hstep
      cases hstep

end React

/-- The device file is open if and only if the watchdog is activated or reacts. -/
theorem device_open_iff_active {target : Target} {w : Watchdog}
    (run : Run (step target) (reliable target) {} w) :
    (w.openFiles ≠ [] ↔ w.state = .activated ∨ w.state = .react) ∧
    (∀ c, reliable target w c →
      call target w c ≠ .error .fileDescriptor ∧ call target w c ≠ .error .noDevice) ∧
    (∀ results w', reliable target w (.enable results) →
      call target w (.enable results) = .ok (w', false) → w' = w) ∧
    ∀ result w', w.state = .activated → step target w (.fireWatchdogReaction result) = some w' →
      ∀ w'', Run (step target) anyStep w' w'' → w''.keepAlives = w'.keepAlives := by
  have hfresh : Consistent {} := ⟨rfl, nofun⟩
  have h : Consistent w := run.invariant Consistent Consistent.step hfresh
  refine ⟨?_, fun c hok => ?_, fun results w' hok hcall => ?_,
    fun result w' hactivated hstep w'' later => ?_⟩
  · by_cases hidle : w.state = .idle
    · unfold Consistent at h
      rw [hidle] at h
      simp [h.1, hidle]
    · obtain ⟨device, fd, -, -, -, hfiles⟩ := h.assertDevice hidle
      cases hstate : w.state with
      | idle => exact absurd hstate hidle
      | activated | react => simp [hfiles]
  · obtain herror | ⟨w', b, hcall, -⟩ := h.call hok
    · simp [herror]
    · simp [hcall]
  · obtain herror | hfailed | ⟨w'', henabled, -⟩ := h.enable hok
    · cases hcall.symm.trans herror
    · cases hcall.symm.trans hfailed
      rfl
    · cases hcall.symm.trans henabled
  · exact run_react (state_of_fireWatchdogReaction hactivated hstep) later

instance (target : Target) (timeoutMax : Nat) (results : EnableResults) :
    Decidable (Succeeds target timeoutMax results) :=
  match h : results.getTimeout with
  | none => isFalse (by rw [Succeeds, h]; exact id)
  | some t => decidable_of_iff (results.enableCard = true ∧
      ((target.toMs t).toOption = some (timeoutMax : Int) ∨
        results.getTimeLeft.isSome ∧ results.setTimeout = (true, target.ofMs timeoutMax)))
      (by rw [Succeeds, h])

instance (target : Target) (w : Watchdog) : (c : Call) → Decidable (reliable target w c)
  | .init _ _ _ => inferInstanceAs (Decidable (_ → _))
  | .enable _ => inferInstanceAs (Decidable (_ → _ → ∀ _ ∈ w.watchdogDevice, _))
  | .disable | .serviceWatchdog | .fireWatchdogReaction _ => isTrue trivial

/-- A watchdog of two seconds that can be deactivated. -/
def twoSeconds : WatchdogConfig := ⟨"/dev/watchdog", 2000, true, false⟩

theorem device_open_iff_active_fired :
    ∃ w, Run (step .linux) (reliable .linux) {} w ∧ w.state = .react ∧ w.keepAlives = 1 ∧
      w.openFiles ≠ [] := by
  obtain ⟨w, run, hstate, hsent⟩ := Run.exists_of_exec (step .linux) (reliable .linux) {}
    (fun w => w.state = .react ∧ w.keepAlives = 1)
    [.init twoSeconds 50000000 false, .enable ⟨none, none, none, (false, 0), false⟩,
      .enable ⟨some 3, some 10, some 5, (true, 2), true⟩, .serviceWatchdog, .disable,
      .enable ⟨some 3, some 2, none, (false, 0), true⟩, .fireWatchdogReaction (true, 0),
      .serviceWatchdog] (by decide +kernel)
  exact ⟨w, run, hstate, hsent, (device_open_iff_active run).1.mpr (.inr hstate)⟩

/-- A request of `enable` fails after the file was opened; or an `init` that runs out of memory
resets the device of an enabled watchdog. -/
theorem device_open_after_failed_enable :
    (∃ w, Run (step .linux) anyStep {} w ∧ w.state = .idle ∧ w.openFiles = [3] ∧
      ∀ results, call .linux w (.enable results) = .error .fileDescriptor) ∧
    ∃ w, Run (step .linux) anyStep {} w ∧ w.state = .activated ∧
      call .linux w .serviceWatchdog = .error .noDevice := by
  constructor
  · obtain ⟨w, run, hstate, hfiles, hdevice⟩ := Run.exists_of_exec (step .linux) anyStep {}
      (fun w => w.state = .idle ∧ w.openFiles = [3] ∧
        w.watchdogDevice = some ⟨⟨"/dev/watchdog", 0, 2000, true, false⟩, 3⟩)
      [.init twoSeconds 50000000 false, .enable ⟨some 3, none, none, (false, 0), false⟩]
      (by decide +kernel)
    refine ⟨w, run, hstate, hfiles, fun results => ?_⟩
    simp [call, enable, hstate, hdevice, enableDevice, bind, Except.bind, throw, throwThe,
      MonadExceptOf.throw]
  · obtain ⟨w, run, hstate, hdevice⟩ := Run.exists_of_exec (step .linux) anyStep {}
      (fun w => w.state = .activated ∧ w.watchdogDevice = none)
      [.init twoSeconds 50000000 false, .enable ⟨some 3, some 2, none, (false, 0), true⟩,
        .init twoSeconds 50000000 true] (by decide +kernel)
    refine ⟨w, run, hstate, ?_⟩
    simp [call, serviceWatchdog, hstate, assertDevice, hdevice, bind, Except.bind, Except.map]

end Watchdog

end LaunchManager
