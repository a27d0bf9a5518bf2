import LaunchManager.Library.LockTable
import LaunchManager.Library.Runs
import Mathlib.Data.List.Basic

/-!
# The mutexes of the control client

`BasicLmControlImpl` guards its proxy, its callback and the reading of samples with three
mutexes. The methods are followed from one lock operation to the next, for any number of
threads. The activation callback is user code: inside it a thread may call every method of
the same object, in any order and number.
-/

namespace LaunchManager

open Option List

set_option autoImplicit false

universe u

namespace LmControlImpl

inductive Mutex where
  | mutex
  | callbackMutex
  | sampleProcessingMutex
  deriving DecidableEq, Repr

inductive Caller where
  | activateRunTarget
  | getActiveRunTarget
  | registerCallback
  | awaitNotificationRegistration
  deriving DecidableEq, Repr

/-- Where a call is. The flags say whether a callback is not empty and whether handles were found;
`forwardSamples` counts the samples of a batch that are left and those it had. -/
inductive Frame where
  | connectedProxy (caller : Caller)
  | readProxy (caller : Caller)
  | methodCall
  | registerCallback (callback : Bool)
  | lockCallback
  | storeCallback
  | onActivationResult
  | readActivationEvents
  | currentCallback
  | copyCallback
  | getNewSamples (callback : Bool)
  | forwardSamples (callback : Bool) (left batch : Nat)
  | userCallback
  | onServiceFound (handles : Bool)
  | checkHandles (handles : Bool)
  | createProxy
  | subscribe
  | setReceiveHandler
  | waitForConnection
  | checkConnected
  | asleep
  deriving DecidableEq, Repr

inductive Call where
  | activateRunTarget
  | getActiveRunTarget
  | registerCallback (callback : Bool)
  | waitForConnection
  deriving DecidableEq, Repr

def Call.entry : Call → Frame
  | .activateRunTarget => .connectedProxy .activateRunTarget
  | .getActiveRunTarget => .connectedProxy .getActiveRunTarget
  | .registerCallback callback => .registerCallback callback
  | .waitForConnection => .waitForConnection

namespace Frame

/-- The mutex that the thread tries to lock, and where it continues with it. -/
def locks : Frame → Option (Mutex × Frame)
  | connectedProxy caller => some (.mutex, readProxy caller)
  | lockCallback => some (.callbackMutex, storeCallback)
  | onActivationResult => some (.sampleProcessingMutex, readActivationEvents)
  | currentCallback => some (.callbackMutex, copyCallback)
  | onServiceFound handles => some (.mutex, checkHandles handles)
  | waitForConnection => some (.mutex, checkConnected)
  | readProxy _ | methodCall | registerCallback _ | storeCallback | readActivationEvents
  | copyCallback | getNewSamples _ | forwardSamples _ _ _ | userCallback | checkHandles _
  | createProxy | subscribe | setReceiveHandler | checkConnected | asleep => none

/-- The lock guards that are alive in the frame. -/
def holds : Frame → List Mutex
  | readProxy _ | checkHandles _ | createProxy | subscribe | setReceiveHandler | checkConnected =>
    [.mutex]
  | storeCallback => [.callbackMutex]
  | readActivationEvents | currentCallback | getNewSamples _ | forwardSamples _ _ _ =>
    [.sampleProcessingMutex]
  | copyCallback => [.callbackMutex, .sampleProcessingMutex]
  | connectedProxy _ | methodCall | registerCallback _ | lockCallback | onActivationResult
  | userCallback | onServiceFound _ | waitForConnection | asleep => []

end Frame

/-- `proxy_` has a value, the receive handler is installed, `callback_` is not empty; who holds
each mutex, and the calls of each thread. -/
structure State (Thread : Type u) where
  proxy : Bool := false
  receiving : Bool := false
  callback : Bool := false
  holder : Mutex → Option Thread := fun _ => none
  stack : Thread → List Frame := fun _ => []

variable {Thread : Type u}

def sampleCount : Nat := 4

/-- What a thread does between two lock operations: the mutex it unlocks and the frames that
replace its innermost one. -/
structure Proceeding where
  proxy : Bool
  receiving : Bool
  callback : Bool
  unlocks : Option Mutex
  frames : List Frame

def State.goOn (s : State Thread) (unlocks : Option Mutex) (frames : List Frame) : Proceeding :=
  ⟨s.proxy, s.receiving, s.callback, unlocks, frames⟩

def State.withProxy (s : State Thread) : Caller → List Frame
  | .activateRunTarget | .getActiveRunTarget => if s.proxy then [.methodCall] else []
  | .registerCallback => if s.proxy then [.onActivationResult] else []
  | .awaitNotificationRegistration => [.methodCall]

/-- `reply` is what the middleware answers, `none` for an error: the number of new samples, or
any number where only the success counts. A waiting client gets `none` when its timeout is over. -/
def State.proceed (s : State Thread) (reply : Option Nat) : Frame → Option Proceeding
  | .readProxy caller => some (s.goOn (some .mutex) (s.withProxy caller))
  | .methodCall => some (s.goOn none [])
  | .registerCallback callback => some (s.goOn none (if callback then [.lockCallback] else []))
  | .storeCallback => some
    { s.goOn (some .callbackMutex) [.connectedProxy .registerCallback] with callback := true }
  | .readActivationEvents => if s.proxy then some (s.goOn none [.currentCallback]) else none
  | .copyCallback => some (s.goOn (some .callbackMutex) [.getNewSamples s.callback])
  | .getNewSamples callback =>
    match reply with
    | none => some (s.goOn (some .sampleProcessingMutex) [])
    | some n => if n ≤ sampleCount then some (s.goOn none [.forwardSamples callback n n]) else none
  | .forwardSamples callback 0 batch => some (
    if batch < sampleCount then s.goOn (some .sampleProcessingMutex) []
    else s.goOn none [.getNewSamples callback])
  | .forwardSamples callback (left + 1) batch => some (s.goOn none (
    if callback then [.userCallback, .forwardSamples callback left batch]
    else [.forwardSamples callback left batch]))
  | .userCallback => some (s.goOn none [])
  | .checkHandles handles => some (
    if handles = false ∨ s.proxy = true then s.goOn (some .mutex) []
    else s.goOn none [.createProxy])
  | .createProxy => some (
    if reply.isSome then { s.goOn none [.subscribe] with proxy := true }
    else s.goOn (some .mutex) [])
  | .subscribe => some (
    if reply.isSome then s.goOn none [.setReceiveHandler]
    else { s.goOn (some .mutex) [] with proxy := false })
  | .setReceiveHandler => some (
    if reply.isSome then { s.goOn (some .mutex) [] with receiving := true }
    else { s.goOn (some .mutex) [] with proxy := false })
  | .checkConnected => some (
    if s.proxy then s.goOn (some .mutex) [.connectedProxy .awaitNotificationRegistration]
    else s.goOn (some .mutex) (if reply.isSome then [.asleep] else []))
  | .asleep => some (s.goOn none [.waitForConnection])
  | .connectedProxy _ | .lockCallback | .onActivationResult | .currentCallback
  | .onServiceFound _ | .waitForConnection => none

/-- The middleware calls the receive handler and the discovery handler on threads of its own. -/
inductive Act (Thread : Type u) where
  | call (t : Thread) (c : Call)
  | receive (t : Thread)
  | find (t : Thread) (handles : Bool)
  | lock (t : Thread)
  | proceed (t : Thread) (reply : Option Nat)

def Act.thread : Act Thread → Thread
  | call t _ | receive t | find t _ | lock t | proceed t _ => t

def inUserCode : List Frame → Bool
  | [] | .userCallback :: _ => true
  | _ :: _ => false

def State.tries (s : State Thread) (t : Thread) : Option Mutex :=
  (s.stack t).head?.bind fun f => f.locks.map Prod.fst

section Frames

def guards (frames : List Frame) : List Mutex := frames.flatMap Frame.holds

/-- The frames of a call that takes no other mutex than `mutex_`. -/
def Frame.reentrant : Frame → Bool
  | .connectedProxy caller | .readProxy caller => caller != .registerCallback
  | .methodCall | .registerCallback false | .waitForConnection | .checkConnected | .asleep => true
  | _ => false

/-- A callback runs inside the loop over the samples, and only such calls inside a callback. -/
inductive Nested : List Frame → Prop
  | idle : Nested []
  | outermost {f : Frame} (hf : f ≠ .userCallback) : Nested [f]
  | inCallback (callback : Bool) (left batch : Nat) :
    Nested [.userCallback, .forwardSamples callback left batch]
  | reentered {f : Frame} (hf : f.reentrant = true) (callback : Bool) (left batch : Nat) :
    Nested [f, .userCallback, .forwardSamples callback left batch]

/-- The mutex of the samples is taken first. -/
def rank : Mutex → Nat
  | .sampleProcessingMutex => 0
  | .mutex | .callbackMutex => 1

variable {s : State Thread} {f f' : Frame} {frames rest : List Frame} {reply : Option Nat}
variable {p : Proceeding} {m : Mutex}

namespace Frame

theorem holds_of_locks (h : f.locks = some (m, f')) : f'.holds = m :: f.holds := by
  cases f <;> cases h <;> rfl

theorem nodup_holds (f : Frame) : f.holds.Nodup := by
  cases f <;> simp [holds]

theorem holds_before_lock (h : f.locks = some (m, f')) :
    f' ≠ .userCallback ∧ (f.holds = [] ∨ f.holds = [.sampleProcessingMutex] ∧ rank m = 1) := by
  cases f <;> cases h <;> simp [holds, rank]

theorem reentrant_locks (hf : f.reentrant = true) (h : f.locks = some (m, f')) :
    m = .mutex ∧ f.holds = [] ∧ f'.reentrant = true := by
  cases f with
  | connectedProxy caller =>
    cases h
    exact ⟨rfl, rfl, hf⟩
  | waitForConnection =>
    cases h
    exact ⟨rfl, rfl, rfl⟩
  | lockCallback | onActivationResult | currentCallback | onServiceFound _ => cases hf
  | _ => cases h

theorem reentrant_holds (hf : f.reentrant = true) : f.holds = [] ∨ f.holds = [.mutex] := by
  cases f <;> first | exact .inl rfl | exact .inr rfl | cases hf

end Frame

theorem holds_of_proceed (h : s.proceed reply f = some p) :
    f.holds = p.unlocks.toList ++ guards p.frames := by
  cases f with
  | readProxy caller =>
    cases h
    cases caller <;> cases hp : s.proxy <;>
      simp [State.goOn, State.withProxy, guards, Frame.holds, hp]
  | methodCall | storeCallback | copyCallback | userCallback | asleep =>
    cases h
    rfl
  | registerCallback callback =>
    cases h
    cases callback <;> rfl
  | readActivationEvents =>
    obtain ⟨-, ⟨⟩⟩ := ite_none_right_eq_some.mp h
    rfl
  | getNewSamples callback =>
    cases reply with
    | none =>
      cases h
      rfl
    | some n =>
      obtain ⟨-, ⟨⟩⟩ := ite_none_right_eq_some.mp h
      rfl
  | forwardSamples callback left batch =>
    cases left with
    | zero =>
      cases h
      split <;> rfl
    | succ left =>
      cases h
      cases callback <;> rfl
  | checkHandles handles =>
    cases h
    split <;> rfl
  | createProxy | subscribe | setReceiveHandler =>
    cases h
    cases reply <;> rfl
  | checkConnected =>
    cases h
    cases hp : s.proxy <;> cases reply <;> rfl
  | connectedProxy _ | lockCallback | onActivationResult | currentCallback | onServiceFound _
  | waitForConnection => cases h

theorem nested_of_proceed (h : s.proceed reply f = some p) : Nested p.frames := by
  cases f with
  | readProxy caller =>
    cases h
    cases caller <;> cases hp : s.proxy <;> simp only [State.goOn, State.withProxy, hp] <;>
      first | exact .idle | exact .outermost nofun
  | methodCall | userCallback =>
    cases h
    exact .idle
  | storeCallback | copyCallback | asleep =>
    cases h
    exact .outermost nofun
  | registerCallback callback =>
    cases h
    cases callback with
    | false => exact .idle
    | true => exact .outermost nofun
  | readActivationEvents =>
    obtain ⟨-, ⟨⟩⟩ := ite_none_right_eq_some.mp h
    exact .outermost nofun
  | getNewSamples callback =>
    cases reply with
    | none =>
      cases h
      exact .idle
    | some n =>
      obtain ⟨-, ⟨⟩⟩ := ite_none_right_eq_some.mp h
      exact .outermost nofun
  | forwardSamples callback left batch =>
    cases left with
    | zero =>
      cases h
      split
      · exact .idle
      · exact .outermost nofun
    | succ left =>
      cases h
      cases callback with
      | false => exact .outermost nofun
      | true => exact .inCallback true left batch
  | checkHandles handles =>
    cases h
    split
    · exact .idle
    · exact .outermost nofun
  | createProxy | subscribe | setReceiveHandler =>
    cases h
    cases reply <;> first | exact .idle | exact .outermost nofun
  | checkConnected =>
    cases h
    cases hp : s.proxy <;> cases reply <;> first | exact .idle | exact .outermost nofun
  | connectedProxy _ | lockCallback | onActivationResult | currentCallback | onServiceFound _
  | waitForConnection => cases h

theorem reentrant_of_proceed (hf : f.reentrant = true) (h : s.proceed reply f = some p) :
    p.frames = [] ∨ ∃ g : Frame, g.reentrant = true ∧ p.frames = [g] := by
  cases f with
  | readProxy caller =>
    cases h
    cases caller with
    | activateRunTarget | getActiveRunTarget =>
      cases hp : s.proxy <;> simp [State.goOn, State.withProxy, Frame.reentrant, hp]
    | registerCallback => cases hf
    | awaitNotificationRegistration => exact .inr ⟨.methodCall, rfl, rfl⟩
  | methodCall =>
    cases h
    exact .inl rfl
  | registerCallback callback =>
    cases callback with
    | false =>
      cases h
      exact .inl rfl
    | true => cases hf
  | checkConnected =>
    cases h
    cases hp : s.proxy with
    | true => exact .inr ⟨.connectedProxy .awaitNotificationRegistration, rfl, by simp [State.goOn]⟩
    | false =>
      cases reply with
      | none => exact .inl (by simp [State.goOn])
      | some n => exact .inr ⟨.asleep, rfl, by simp [State.goOn]⟩
  | asleep =>
    cases h
    exact .inr ⟨.waitForConnection, rfl, rfl⟩
  | connectedProxy _ | waitForConnection => cases h
  | _ => cases hf

theorem guards_reentered (f : Frame) (callback : Bool) (left batch : Nat) :
    guards [f, .userCallback, .forwardSamples callback left batch] =
      f.holds ++ [.sampleProcessingMutex] :=
  rfl

namespace Nested

theorem nodup_guards (h : Nested frames) : (guards frames).Nodup := by
  cases h with
  | idle => exact nodup_nil
  | outermost hf => simpa [guards] using Frame.nodup_holds _
  | inCallback callback left batch => simp [guards, Frame.holds]
  | reentered hf callback left batch =>
    rw [guards_reentered]
    rcases Frame.reentrant_holds hf with hholds | hholds <;> simp [hholds]

theorem rank_lt (h : Nested (f :: rest)) (hlock : f.locks = some (m, f')) :
    ∀ n ∈ guards (f :: rest), rank n < rank m := by
  cases h with
  | outermost hf =>
    intro n hn
    have hn : n ∈ f.holds := by simpa [guards] using hn
    rcases (Frame.holds_before_lock hlock).2 with hholds | ⟨hholds, hrank⟩
    · rw [hholds] at hn
      cases hn
    · rw [hholds, mem_singleton] at hn
      rw [hn, hrank]
      exact Nat.zero_lt_one
  | inCallback callback left batch => cases hlock
  | reentered hf callback left batch =>
    obtain ⟨rfl, hholds, -⟩ := Frame.reentrant_locks hf hlock
    intro n hn
    rw [guards_reentered, hholds, nil_append, mem_singleton] at hn
    rw [hn]
    exact Nat.zero_lt_one

theorem locked (h : Nested (f :: rest)) (hlock : f.locks = some (m, f')) : Nested (f' :: rest) := by
  cases h with
  | outermost hf => exact .outermost (Frame.holds_before_lock hlock).1
  | inCallback callback left batch => cases hlock
  | reentered hf callback left batch =>
    exact .reentered (Frame.reentrant_locks hf hlock).2.2 callback left batch

theorem proceeded (h : Nested (f :: rest)) (hp : s.proceed reply f = some p) :
    Nested (p.frames ++ rest) := by
  cases h with
  | outermost hf =>
    rw [append_nil]
    exact nested_of_proceed hp
  | inCallback callback left batch =>
    cases hp
    exact .outermost nofun
  | reentered hf callback left batch =>
    rcases reentrant_of_proceed hf hp with hframes | ⟨g, hg, hframes⟩
    · rw [hframes]
      exact .inCallback callback left batch
    · rw [hframes]
      exact .reentered hg callback left batch

theorem called (h : Nested frames) (huser : inUserCode frames = true) (c : Call)
    (hc : c = .registerCallback true → .userCallback ∉ frames) : Nested (c.entry :: frames) := by
  cases h with
  | idle => exact .outermost (by cases c <;> nofun)
  | outermost hf =>
    rename_i f
    cases f with
    | userCallback => exact absurd rfl hf
    | _ => cases huser
  | inCallback callback left batch =>
    refine .reentered ?_ callback left batch
    cases c with
    | registerCallback b =>
      cases b with
      | false => rfl
      | true => exact absurd mem_cons_self (hc rfl)
    | activateRunTarget | getActiveRunTarget | waitForConnection => rfl
  | reentered hf callback left batch =>
    rename_i f
    cases f with
    | userCallback => cases hf
    | _ => cases huser

end Nested

/-- Every mutex has the holder that the frames say, and callbacks do not register callbacks. -/
structure Disciplined (s : State Thread) : Prop where
  agrees : LockTable.Agrees s.holder fun t => guards (s.stack t)
  nested : ∀ t, Nested (s.stack t)

theorem disciplined_init : Disciplined ({} : State Thread) :=
  ⟨fun m t => by simp [guards], fun _ => .idle⟩

/-- A thread only tries mutexes of a higher rank than those it holds. -/
theorem Disciplined.rank_lt (h : Disciplined s) {t : Thread} {n : Mutex}
    (htries : s.tries t = some m) (hn : s.holder n = some t) : rank n < rank m := by
  obtain ⟨f, hhead, hf⟩ := bind_eq_some_iff.mp htries
  obtain ⟨⟨m', f'⟩, hlock, rfl⟩ := map_eq_some_iff.mp hf
  obtain ⟨rest, hstack⟩ := List.head?_eq_some_iff.mp hhead
  have hguards : n ∈ guards (s.stack t) := (h.agrees n t).mp hn
  have hnested := h.nested t
  rw [hstack] at hguards hnested
  exact hnested.rank_lt hlock n hguards

end Frames

variable [DecidableEq Thread]

def State.setStack (s : State Thread) (t : Thread) (frames : List Frame) : State Thread :=
  { s with stack := Function.update s.stack t frames }

def State.apply (s : State Thread) (t : Thread) (rest : List Frame) (p : Proceeding) :
    State Thread where
  proxy := p.proxy
  receiving := p.receiving
  callback := p.callback
  holder := match p.unlocks with
    | some m => Function.update s.holder m none
    | none => s.holder
  stack := Function.update s.stack t (p.frames ++ rest)

def step (s : State Thread) : Act Thread → Option (State Thread)
  | .call t c =>
    if inUserCode (s.stack t) then some (s.setStack t (c.entry :: s.stack t)) else none
  | .receive t =>
    if s.stack t = [] ∧ s.receiving = true then some (s.setStack t [.onActivationResult]) else none
  | .find t handles =>
    if s.stack t = [] then some (s.setStack t [.onServiceFound handles]) else none
  | .lock t =>
    match s.stack t with
    | [] => none
    | f :: rest =>
      match f.locks with
      | none => none
      | some (m, f') =>
        if s.holder m = none then
          some { s.setStack t (f' :: rest) with holder := Function.update s.holder m (some t) }
        else none
  | .proceed t reply =>
    match s.stack t with
    | [] => none
    | f :: rest => (s.proceed reply f).map (s.apply t rest)

def State.heldBy (s : State Thread) (t : Thread) : List Mutex :=
  [.mutex, .callbackMutex, .sampleProcessingMutex].filter fun m => s.holder m = some t

def recordTries (_ : State Thread) (a : Act Thread) (s : State Thread)
    (order : List (Mutex × Mutex)) : List (Mutex × Mutex) :=
  match s.tries a.thread with
  | some m => (s.heldBy a.thread).map (·, m) ++ order
  | none => order

def NoReentry (s : State Thread) : Act Thread → Prop
  | .call t (.registerCallback true) => .userCallback ∉ s.stack t
  | _ => True

instance (s : State Thread) (a : Act Thread) : Decidable (NoReentry s a) :=
  match a with
  | .call t (.registerCallback true) => inferInstanceAs (Decidable (.userCallback ∉ s.stack t))
  | .call _ (.registerCallback false) | .call _ .activateRunTarget | .call _ .getActiveRunTarget
  | .call _ .waitForConnection | .receive _ | .find _ _ | .lock _ | .proceed _ _ => isTrue trivial

section Order
variable {s s' : State Thread} {a : Act Thread} {t : Thread} {m : Mutex}
variable {frames rest : List Frame}

theorem nested_update (h : ∀ t, Nested (s.stack t)) (hnew : Nested frames)
    (u : Thread) : Nested (Function.update s.stack t frames u) := by
  by_cases hu : u = t
  · subst hu
    rwa [Function.update_self]
  · rw [Function.update_of_ne hu]
    exact h u

theorem guards_update_of_ne {u : Thread} (hu : u ≠ t) :
    guards (Function.update s.stack t frames u) = guards (s.stack u) := by
  rw [Function.update_of_ne hu]

theorem Disciplined.enter (h : Disciplined s) {f : Frame} (hf : f.holds = [])
    (hnested : Nested (f :: s.stack t)) : Disciplined (s.setStack t (f :: s.stack t)) := by
  refine ⟨h.agrees.keep fun u => ?_, nested_update h.nested hnested⟩
  by_cases hu : u = t
  · subst hu
    simp [State.setStack, guards, hf]
  · exact guards_update_of_ne hu

theorem Disciplined.lock (h : Disciplined s) {f f' : Frame}
    (hstack : s.stack t = f :: rest) (hlock : f.locks = some (m, f')) (hfree : s.holder m = none) :
    Disciplined
      { s.setStack t (f' :: rest) with holder := Function.update s.holder m (some t) } := by
  have hnested := h.nested t
  rw [hstack] at hnested
  refine ⟨h.agrees.acquire hfree (fun u hu => guards_update_of_ne hu) ?_,
    nested_update h.nested (hnested.locked hlock)⟩
  simp [State.setStack, hstack, guards, Frame.holds_of_locks hlock]

theorem Disciplined.proceed (h : Disciplined s) {f : Frame} {p : Proceeding}
    {reply : Option Nat} (hstack : s.stack t = f :: rest) (hp : s.proceed reply f = some p) :
    Disciplined (s.apply t rest p) := by
  have hnested := h.nested t
  rw [hstack] at hnested
  have hguards : guards (s.stack t) = p.unlocks.toList ++ guards (p.frames ++ rest) := by
    simp only [hstack, guards, flatMap_cons, flatMap_append]
    rw [holds_of_proceed hp, guards, append_assoc]
  refine ⟨?_, nested_update h.nested (hnested.proceeded hp)⟩
  simp only [State.apply]
  cases hunlocks : p.unlocks with
  | none =>
    refine h.agrees.keep fun u => ?_
    by_cases hu : u = t
    · subst hu
      simp [hguards, hunlocks]
    · exact guards_update_of_ne hu
  | some m =>
    refine h.agrees.release (t := t) (h.nested t).nodup_guards
      (fun u hu => guards_update_of_ne hu) ?_
    simp [hguards, hunlocks]

theorem Disciplined.step (h : Disciplined s) (hok : NoReentry s a)
    (hs : step s a = some s') : Disciplined s' := by
  cases a with
  | call t c =>
    obtain ⟨huser, ⟨⟩⟩ := ite_none_right_eq_some.mp hs
    refine h.enter (by cases c <;> rfl) ((h.nested t).called huser c ?_)
    rintro rfl
    exact hok
  | receive t =>
    obtain ⟨⟨hidle, -⟩, ⟨⟩⟩ := ite_none_right_eq_some.mp hs
    rw [← hidle]
    exact h.enter rfl (hidle ▸ .outermost nofun)
  | find t handles =>
    obtain ⟨hidle, ⟨⟩⟩ := ite_none_right_eq_some.mp hs
    rw [← hidle]
    exact h.enter rfl (hidle ▸ .outermost nofun)
  | lock t =>
    simp only [LmControlImpl.step] at hs
    split at hs
    · cases hs
    · rename_i f rest hstack
      split at hs
      · cases hs
      · rename_i m f' hlock
        obtain ⟨hfree, ⟨⟩⟩ := ite_none_right_eq_some.mp hs
        exact h.lock hstack hlock hfree
  | proceed t reply =>
    simp only [LmControlImpl.step] at hs
    split at hs
    · cases hs
    · rename_i f rest hstack
      obtain ⟨p, hp, rfl⟩ := map_eq_some_iff.mp hs
      exact h.proceed hstack hp

theorem mem_heldBy : m ∈ s.heldBy t ↔ s.holder m = some t := by
  cases m <;> simp [State.heldBy]

theorem Disciplined.recordTries (h : Disciplined s') {order : List (Mutex × Mutex)}
    (horder : ∀ x ∈ order, rank x.1 < rank x.2) :
    ∀ x ∈ recordTries s a s' order, rank x.1 < rank x.2 := by
  unfold LmControlImpl.recordTries
  split
  · rename_i m htries
    intro x hx
    rcases mem_append.mp hx with hnew | hold
    · obtain ⟨n, hn, rfl⟩ := mem_map.mp hnew
      exact h.rank_lt htries (mem_heldBy.mp hn)
    · exact horder x hold
  · exact horder

theorem mutexes_in_order {order : List (Mutex × Mutex)}
    (hrun : Runs.Run (Runs.recorded step recordTries) (fun p => NoReentry p.1)
      (({} : State Thread), []) (s, order)) :
    (∀ t m, s.tries t = some m → s.holder m ≠ some t) ∧
      ∀ m, ¬ Relation.TransGen (fun a b => (a, b) ∈ order) m m := by
  have hinv : Disciplined (s, order).1 ∧ ∀ x ∈ (s, order).2, rank x.1 < rank x.2 := by
    refine hrun.invariant (fun p => Disciplined p.1 ∧ ∀ x ∈ p.2, rank x.1 < rank x.2) ?_ ?_
    · intro p p' a h hok hs
      obtain ⟨hstep, hrecord⟩ := Runs.Run.of_recorded hs
      have hnext := h.1.step hok hstep
      refine ⟨hnext, ?_⟩
      rw [hrecord]
      exact hnext.recordTries h.2
    · exact ⟨disciplined_init, fun x hx => by cases hx⟩
  refine ⟨?_, LockTable.acyclic_of_rank rank fun a b hab => hinv.2 (a, b) hab⟩
  intro t m htries hholder
  exact Nat.lt_irrefl _ (hinv.1.rank_lt htries hholder)

/-- Thread `0` registers a callback, thread `1` sets up the proxy and thread `2` is in the callback
for a sample. -/
def untilCallback : List (Act Nat) :=
  [.call 0 (.registerCallback true), .proceed 0 none, .lock 0, .proceed 0 none, .lock 0,
    .proceed 0 none, .find 1 true, .lock 1, .proceed 1 none, .proceed 1 (some 0),
    .proceed 1 (some 0), .proceed 1 (some 0), .receive 2, .lock 2, .proceed 2 none, .lock 2,
    .proceed 2 none, .proceed 2 (some 1), .proceed 2 none]

theorem mutexes_in_order_reentered :
    ∃ p : State Nat × List (Mutex × Mutex), p.1.tries 2 = some .mutex ∧
      p.1.holder .sampleProcessingMutex = some 2 ∧
      p.2 = [(.sampleProcessingMutex, .mutex), (.sampleProcessingMutex, .callbackMutex)] ∧
      (∀ t m, p.1.tries t = some m → p.1.holder m ≠ some t) ∧
      ∀ m, ¬ Relation.TransGen (fun a b => (a, b) ∈ p.2) m m := by
  obtain ⟨p, hrun, htries, hholder, horder⟩ := Runs.Run.exists_of_exec
    (Runs.recorded step recordTries) (fun p => NoReentry p.1) (({} : State Nat), [])
    (fun p => p.1.tries 2 = some .mutex ∧ p.1.holder .sampleProcessingMutex = some 2 ∧
      p.2 = [(.sampleProcessingMutex, .mutex), (.sampleProcessingMutex, .callbackMutex)])
    (List.append untilCallback [.call 2 .getActiveRunTarget]) (by decide +kernel)
  exact ⟨p, htries, hholder, horder, mutexes_in_order hrun⟩

theorem callback_locks_itself_out :
    ∃ s, Runs.Run step Runs.anyStep ({} : State Nat) s ∧
      s.tries 2 = some .sampleProcessingMutex ∧ s.holder .sampleProcessingMutex = some 2 ∧
      (step s (.lock 2)).isNone = true ∧ (step s (.proceed 2 none)).isNone = true :=
  Runs.Run.exists_of_exec _ _ _ _
    (List.append untilCallback [.call 2 (.registerCallback true), .proceed 2 none, .lock 2,
      .proceed 2 none, .lock 2, .proceed 2 none]) (by decide +kernel)

end Order

end LmControlImpl

end LaunchManager
