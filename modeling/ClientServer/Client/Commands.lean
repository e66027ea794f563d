import ClientServer.LTS.Exclusion
import ClientServer.LTS.Run
import Mathlib.Data.Set.Card
import Mathlib.Order.CompletePartialOrder

/-!
# The command queue of the client

Any thread may put a command into the queue of a `Region` of the client; its update takes all of
them out and invokes them.  A `SpinLock` guards the queue, which is a plain vector: to append is to
read it and to write it back, and so is to take everything out.

The threads take their steps in any order, one access of shared memory a step; a command that is
invoked may throw.

* `SpinLock` : the lock.
* `Region.Commands.next` : the steps of `AddCommandQueue` and `ReleaseCommandQueue`.
* `Sound` : one thread at a time has the lock, and what it has read is what is there.
* `atomicQueue` : what the queue is for; every step is one operation of it, or none.
-/

namespace ClientServer

/-- `SpinLock`. -/
structure SpinLock where
  lock : Bool
  deriving DecidableEq

namespace SpinLock

/-- `compare_exchange_strong` of `lock_`: whether it exchanged, `expected`, and the lock. -/
def compare_exchange_strong (l : SpinLock) (expected desired : Bool) : Bool × Bool × SpinLock :=
  if l.lock = expected then (true, expected, ⟨desired⟩) else (false, l.lock, l)

/-- A pass of the loop of `lock`: whether it was the last, and the lock. -/
def lockPass (l : SpinLock) : Bool × SpinLock :=
  let (exchanged, _, l) := l.compare_exchange_strong false true
  (exchanged, l)

/-- `unlock`. -/
def unlock (_ : SpinLock) : SpinLock := ⟨false⟩

end SpinLock

namespace Client

/-- Where a thread is. -/
inductive Phase (C : Type*)
  | idle
  /-- In `lock` of `AddCommandQueue`. -/
  | lockToAdd (command : C)
  /-- `emplace_back`, before and after the vector is read. -/
  | emplace (command : C)
  | emplaced (command : C) (old : List C)
  | unlockAdded
  /-- In `lock` of `ReleaseCommandQueue`. -/
  | lockToRelease
  | testEmpty
  | assign
  | clear (commands : List C)
  | unlockReleased (commands : List C)
  /-- The loop over the commands. -/
  | invoke (commands : List C)
  deriving DecidableEq

/-- The thread is between `lock` and `unlock`. -/
def Phase.holds {C : Type*} : Phase C → Bool
  | .emplace _ | .emplaced _ _ | .unlockAdded => true
  | .testEmpty | .assign | .clear _ | .unlockReleased _ => true
  | _ => false

/-- The commands that a thread has taken out. -/
def Phase.inHand {C : Type*} : Phase C → List C
  | .unlockReleased commands | .invoke commands => commands
  | _ => []

/-- What a thread has read of the queue is what is there. -/
def Phase.UpToDate {C : Type*} (queue : List C) : Phase C → Prop
  | .emplaced _ old => old = queue
  | .clear commands => commands = queue
  | _ => True

/-- The queue of a `Region`, the threads, and what was invoked. -/
structure Commands (T C : Type*) where
  command_lock : SpinLock
  command_queue : List C
  phase : T → Phase C
  invoked : List C

/-- What a thread does: it calls one of the functions, or goes on in it; `throw` is the command
that it invokes. -/
inductive CommandStep (C : Type*)
  | add (command : C)
  | release
  | step
  | throw
  deriving DecidableEq

namespace Commands

variable {T C : Type*} [DecidableEq T]

/-- The thread `t` comes to `p`. -/
def goto (s : Commands T C) (t : T) (p : Phase C) : Commands T C :=
  { s with phase := Function.update s.phase t p }

/-- A pass of the loop of `lock`, before `p`. -/
def lockThen (s : Commands T C) (t : T) (p : Phase C) : Commands T C :=
  match s.command_lock.lockPass with
  | (true, l) => { s with command_lock := l }.goto t p
  | (false, l) => { s with command_lock := l }

/-- The steps of `AddCommandQueue` and of `ReleaseCommandQueue`. -/
def next (s : Commands T C) (l : T × CommandStep C) : Option (Commands T C) :=
  let t := l.1
  match s.phase t, l.2 with
  | .idle, .add command => some (s.goto t (.lockToAdd command))
  | .lockToAdd command, .step => some (s.lockThen t (.emplace command))
  | .emplace command, .step => some (s.goto t (.emplaced command s.command_queue))
  | .emplaced command old, .step =>
    some ({ s with command_queue := old ++ [command] }.goto t .unlockAdded)
  | .unlockAdded, .step =>
    some ({ s with command_lock := s.command_lock.unlock }.goto t .idle)
  | .idle, .release => some (s.goto t .lockToRelease)
  | .lockToRelease, .step => some (s.lockThen t .testEmpty)
  | .testEmpty, .step =>
    some (s.goto t (if s.command_queue.isEmpty then .unlockReleased [] else .assign))
  | .assign, .step => some (s.goto t (.clear s.command_queue))
  | .clear commands, .step =>
    some ({ s with command_queue := [] }.goto t (.unlockReleased commands))
  | .unlockReleased commands, .step =>
    some ({ s with command_lock := s.command_lock.unlock }.goto t (.invoke commands))
  | .invoke [], .step => some (s.goto t .idle)
  | .invoke (command :: commands), .step =>
    some ({ s with invoked := s.invoked ++ [command] }.goto t (.invoke commands))
  -- the exception is thrown on, and the vector with the other commands is destroyed
  | .invoke (command :: _), .throw =>
    some ({ s with invoked := s.invoked ++ [command] }.goto t .idle)
  | _, _ => none

/-- All interleavings. -/
def system (T C : Type*) [DecidableEq T] : LTS (Commands T C) (T × CommandStep C) := .ofNext next

/-- Nobody has called anything yet. -/
def start (T C : Type*) : Commands T C := ⟨⟨false⟩, [], fun _ => .idle, []⟩

/-! ### One thread at a time -/

/-- One thread at a time has the lock, and what it has read is what is there. -/
structure Sound (s : Commands T C) : Prop where
  excludes : Excludes s.command_lock.lock fun t => (s.phase t).holds = true
  upToDate : ∀ t, (s.phase t).UpToDate s.command_queue

variable {s s' : Commands T C} {t : T} {p : Phase C} {queue : List C}

omit [DecidableEq T] in
theorem sound_start : Sound (start T C) :=
  ⟨⟨fun _ _ h => (Bool.false_ne_true h).elim, by simp [start, Phase.holds]⟩, fun _ => trivial⟩

omit [DecidableEq T] in
theorem upToDate_of_not_holds (h : p.holds = false) : p.UpToDate queue := by
  cases p <;> trivial

theorem Sound.inside (h : Sound s) (ht : (s.phase t).holds = true) (hp : p.holds = true)
    (hread : p.UpToDate queue) (invoked : List C) :
    Sound ⟨s.command_lock, queue, Function.update s.phase t p, invoked⟩ := by
  constructor
  · refine h.excludes.move fun u => ?_
    by_cases hu : u = t
    · subst hu
      simp [ht, hp]
    · simp [hu]
  · intro u
    by_cases hu : u = t
    · subst hu
      simpa using hread
    · have hnot : (s.phase u).holds = false := by simpa using h.excludes.not_inside ht hu
      simpa [hu] using upToDate_of_not_holds hnot

theorem Sound.outside (h : Sound s) (ht : (s.phase t).holds = false) (hp : p.holds = false)
    (invoked : List C) :
    Sound ⟨s.command_lock, s.command_queue, Function.update s.phase t p, invoked⟩ := by
  constructor
  · refine h.excludes.move fun u => ?_
    by_cases hu : u = t
    · subst hu
      simp [ht, hp]
    · simp [hu]
  · intro u
    by_cases hu : u = t
    · subst hu
      simpa using upToDate_of_not_holds hp
    · simpa [hu] using h.upToDate u

theorem Sound.enter (h : Sound s) (hlock : s.command_lock.lock = false) (hp : p.holds = true)
    (hread : p.UpToDate s.command_queue) :
    Sound ⟨⟨true⟩, s.command_queue, Function.update s.phase t p, s.invoked⟩ := by
  constructor
  · refine (hlock ▸ h.excludes).enter (t := t) (by simpa using hp) fun u hu => ?_
    simp [hu]
  · intro u
    by_cases hu : u = t
    · subst hu
      simpa using hread
    · simpa [hu] using h.upToDate u

theorem Sound.leave (h : Sound s) (ht : (s.phase t).holds = true) (hp : p.holds = false) :
    Sound ⟨s.command_lock.unlock, s.command_queue, Function.update s.phase t p, s.invoked⟩ := by
  constructor
  · refine h.excludes.leave ht (by simpa using hp) fun u hu => ?_
    simp [hu]
  · intro u
    by_cases hu : u = t
    · subst hu
      simpa using upToDate_of_not_holds hp
    · simpa [hu] using h.upToDate u

/-- The two outcomes of a pass of the loop of `lock`. -/
theorem lockThen_cases (s : Commands T C) (t : T) (p : Phase C) :
    s.command_lock.lock = false ∧
        s.lockThen t p = ⟨⟨true⟩, s.command_queue, Function.update s.phase t p, s.invoked⟩ ∨
      s.command_lock.lock = true ∧ s.lockThen t p = s := by
  obtain ⟨⟨lock⟩, queue, phase, invoked⟩ := s
  cases lock
  · exact .inl ⟨rfl, rfl⟩
  · exact .inr ⟨rfl, rfl⟩

theorem Sound.lockThen (h : Sound s) (hp : p.holds = true) (hread : p.UpToDate s.command_queue) :
    Sound (s.lockThen t p) := by
  rcases lockThen_cases s t p with ⟨hlock, heq⟩ | ⟨-, heq⟩ <;> rw [heq]
  · exact h.enter hlock hp hread
  · exact h

/-- What a step of the thread `t` can be. -/
inductive Steps (s : Commands T C) (t : T) : CommandStep C → Commands T C → Prop
  | add {command : C} : s.phase t = .idle → Steps s t (.add command) (s.goto t (.lockToAdd command))
  | lockToAdd {command : C} : s.phase t = .lockToAdd command →
      Steps s t .step (s.lockThen t (.emplace command))
  | emplace {command : C} : s.phase t = .emplace command →
      Steps s t .step (s.goto t (.emplaced command s.command_queue))
  | emplaced {command : C} {old : List C} : s.phase t = .emplaced command old →
      Steps s t .step ({ s with command_queue := old ++ [command] }.goto t .unlockAdded)
  | unlockAdded : s.phase t = .unlockAdded →
      Steps s t .step ({ s with command_lock := s.command_lock.unlock }.goto t .idle)
  | release : s.phase t = .idle → Steps s t .release (s.goto t .lockToRelease)
  | lockToRelease : s.phase t = .lockToRelease → Steps s t .step (s.lockThen t .testEmpty)
  | testEmpty : s.phase t = .testEmpty → Steps s t .step
      (s.goto t (if s.command_queue.isEmpty then .unlockReleased [] else .assign))
  | assign : s.phase t = .assign → Steps s t .step (s.goto t (.clear s.command_queue))
  | clear {commands : List C} : s.phase t = .clear commands →
      Steps s t .step ({ s with command_queue := [] }.goto t (.unlockReleased commands))
  | unlockReleased {commands : List C} : s.phase t = .unlockReleased commands →
      Steps s t .step ({ s with command_lock := s.command_lock.unlock }.goto t (.invoke commands))
  | finish : s.phase t = .invoke [] → Steps s t .step (s.goto t .idle)
  | invoke {command : C} {commands : List C} : s.phase t = .invoke (command :: commands) →
      Steps s t .step ({ s with invoked := s.invoked ++ [command] }.goto t (.invoke commands))
  | throw {command : C} {commands : List C} : s.phase t = .invoke (command :: commands) →
      Steps s t .throw ({ s with invoked := s.invoked ++ [command] }.goto t .idle)

theorem steps_iff {a : CommandStep C} :
    (system T C).step s (t, a) s' ↔ Steps s t a s' := by
  change next s (t, a) = some s' ↔ _
  constructor
  · intro h
    unfold next at h
    dsimp only at h
    split at h <;> cases h <;> constructor <;> assumption
  · intro h
    unfold next
    cases h <;> simp_all

/-- **Every step keeps the lock to one thread.** -/
theorem Sound.step {l : T × CommandStep C} (h : Sound s) (hst : (system T C).step s l s') :
    Sound s' := by
  obtain ⟨t, a⟩ := l
  cases steps_iff.1 hst with
  | add hp => exact h.outside (by rw [hp]; rfl) rfl _
  | lockToAdd hp => exact h.lockThen rfl trivial
  | emplace hp => exact h.inside (by rw [hp]; rfl) rfl (by rfl) _
  | emplaced hp => exact h.inside (by rw [hp]; rfl) rfl (by trivial) _
  | unlockAdded hp => exact h.leave (by rw [hp]; rfl) rfl
  | release hp => exact h.outside (by rw [hp]; rfl) rfl _
  | lockToRelease hp => exact h.lockThen rfl trivial
  | testEmpty hp =>
    refine h.inside (by rw [hp]; rfl) ?_ ?_ _ <;> split_ifs <;> trivial
  | assign hp => exact h.inside (by rw [hp]; rfl) rfl (by rfl) _
  | clear hp => exact h.inside (by rw [hp]; rfl) rfl (by trivial) _
  | unlockReleased hp => exact h.leave (by rw [hp]; rfl) rfl
  | finish hp => exact h.outside (by rw [hp]; rfl) rfl _
  | invoke hp => exact h.outside (by rw [hp]; rfl) rfl _
  | throw hp => exact h.outside (by rw [hp]; rfl) rfl _

end Commands

/-! ### What the queue is for -/

/-- An operation of the queue: a command is appended; all are taken out; one of those taken out is
invoked; or it throws, and the others that were taken out with it are lost. -/
inductive QueueOp (C : Type*)
  | push (command : C)
  | take (commands : List C)
  | invoke (command : C)
  | fail (command : C) (others : List C)

/-- A queue, what each thread has taken out of it, and what was invoked. -/
structure AtomicQueue (T C : Type*) where
  queue : List C
  inHand : T → List C
  invoked : List C

/-- The queue with operations that are one step each. -/
def atomicQueue (T C : Type*) [DecidableEq T] : LTS (AtomicQueue T C) (T × QueueOp C) where
  step w l w' :=
    match l.2 with
    | .push command => w' = { w with queue := w.queue ++ [command] }
    | .take commands => commands = w.queue ∧ w.inHand l.1 = [] ∧
        w' = { w with queue := [], inHand := Function.update w.inHand l.1 commands }
    | .invoke command => ∃ commands, w.inHand l.1 = command :: commands ∧
        w' = ⟨w.queue, Function.update w.inHand l.1 commands, w.invoked ++ [command]⟩
    | .fail command others => w.inHand l.1 = command :: others ∧
        w' = ⟨w.queue, Function.update w.inHand l.1 [], w.invoked ++ [command]⟩

namespace QueueOp

variable {C : Type*}

/-- The command that is appended. -/
def pushed : QueueOp C → List C
  | .push command => [command]
  | _ => []

end QueueOp

section AtomicQueue

variable {T C : Type*} [DecidableEq T] {u : T} {w : AtomicQueue T C}
  {ops : List (AtomicQueue T C × (T × QueueOp C))}

end AtomicQueue

/-! ### The queue of the region is such a queue -/

namespace Commands

variable {T C : Type*} [DecidableEq T] {s s' : Commands T C} {l : T × CommandStep C}
  {es : List (Commands T C × (T × CommandStep C))}

/-- The queue, as far as it is one. -/
def toAtomic (s : Commands T C) : AtomicQueue T C :=
  ⟨s.command_queue, fun t => (s.phase t).inHand, s.invoked⟩

/-- The operation that a step is, if it is one: the writes of the queue, and what is invoked. -/
def visible (s : Commands T C) (l : T × CommandStep C) : Option (T × QueueOp C) :=
  match s.phase l.1, l.2 with
  | .emplaced command _, .step => some (l.1, .push command)
  | .clear commands, .step => some (l.1, .take commands)
  | .invoke (command :: _), .step => some (l.1, .invoke command)
  | .invoke (command :: others), .throw => some (l.1, .fail command others)
  | _, _ => none

theorem inHand_update (phase : T → Phase C) (t : T) (p : Phase C) :
    (fun u => (Function.update phase t p u).inHand) =
      Function.update (fun u => (phase u).inHand) t p.inHand := by
  funext u
  by_cases hu : u = t <;> simp [hu]

theorem toAtomic_goto {t : T} {p : Phase C} (h : p.inHand = (s.phase t).inHand) :
    (s.goto t p).toAtomic = s.toAtomic := by
  simp only [toAtomic, goto, inHand_update, h]
  rw [Function.update_eq_self t fun u => (s.phase u).inHand]

theorem toAtomic_lockThen {t : T} {p : Phase C} (h : p.inHand = (s.phase t).inHand) :
    (s.lockThen t p).toAtomic = s.toAtomic := by
  rcases lockThen_cases s t p with ⟨-, heq⟩ | ⟨-, heq⟩ <;> rw [heq]
  exact toAtomic_goto h

theorem toAtomic_hidden (hst : (system T C).step s l s') (hv : s.visible l = none) :
    s'.toAtomic = s.toAtomic := by
  obtain ⟨t, a⟩ := l
  cases steps_iff.1 hst with
  | add hp => exact toAtomic_goto (by rw [hp]; rfl)
  | lockToAdd hp => exact toAtomic_lockThen (by rw [hp]; rfl)
  | emplace hp => exact toAtomic_goto (by rw [hp]; rfl)
  | emplaced hp => simp [visible, hp] at hv
  | unlockAdded hp => exact toAtomic_goto (by rw [hp]; rfl)
  | release hp => exact toAtomic_goto (by rw [hp]; rfl)
  | lockToRelease hp => exact toAtomic_lockThen (by rw [hp]; rfl)
  | testEmpty hp => exact toAtomic_goto (by rw [hp]; split_ifs <;> rfl)
  | assign hp => exact toAtomic_goto (by rw [hp]; rfl)
  | clear hp => simp [visible, hp] at hv
  | unlockReleased hp => exact toAtomic_goto (by rw [hp]; rfl)
  | finish hp => exact toAtomic_goto (by rw [hp]; rfl)
  | invoke hp => simp [visible, hp] at hv
  | throw hp => simp [visible, hp] at hv

/-- **A step is the operation that is seen of it.** -/
theorem Sound.step_visible {op : T × QueueOp C} (h : Sound s) (hst : (system T C).step s l s')
    (hv : s.visible l = some op) : (atomicQueue T C).step s.toAtomic op s'.toAtomic := by
  obtain ⟨t, a⟩ := l
  cases steps_iff.1 hst with
  | @emplaced command old hp =>
    simp only [visible, hp, Option.some.injEq] at hv
    subst hv
    have hread : (Phase.emplaced command old).UpToDate s.command_queue := hp ▸ h.upToDate t
    obtain rfl : old = s.command_queue := hread
    exact toAtomic_goto (by rw [hp]; rfl)
  | @clear commands hp =>
    simp only [visible, hp, Option.some.injEq] at hv
    subst hv
    have hread : (Phase.clear commands).UpToDate s.command_queue := hp ▸ h.upToDate t
    refine ⟨hread, congrArg Phase.inHand hp, ?_⟩
    simp only [toAtomic, goto, inHand_update]
    rfl
  | invoke hp =>
    simp only [visible, hp, Option.some.injEq] at hv
    subst hv
    refine ⟨_, congrArg Phase.inHand hp, ?_⟩
    simp only [toAtomic, goto, inHand_update]
    rfl
  | throw hp =>
    simp only [visible, hp, Option.some.injEq] at hv
    subst hv
    refine ⟨congrArg Phase.inHand hp, ?_⟩
    simp only [toAtomic, goto, inHand_update]
    rfl
  | _ hp => simp [visible, hp] at hv

/-- The operations of a run. -/
def operations (es : List (Commands T C × (T × CommandStep C))) :
    List (AtomicQueue T C × (T × QueueOp C)) :=
  es.filterMap fun e => (e.1.visible e.2).map fun op => (e.1.toAtomic, op)

theorem run_operations (h : (system T C).Run (start T C) es s) :
    (atomicQueue T C).Run ⟨[], fun _ => [], []⟩ (operations es) s.toAtomic :=
  h.refines_visible toAtomic visible sound_start (fun _ _ _ hs hst => hs.step hst)
    (fun _ _ _ _ hst hv => toAtomic_hidden hst hv) fun _ _ _ _ hs hst hv => hs.step_visible hst hv

/-- **Mutual exclusion, and one operation at a time.**  However the threads interleave, at most one
of them is between `lock` and `unlock`, and `lock_` is set while one is; and what they do to the
queue are its operations one after the other. -/
theorem commands_atomic (h : (system T C).Run (start T C) es s) :
    LTS.Always (fun s => Excludes s.command_lock.lock fun t => (s.phase t).holds = true) es s ∧
      (atomicQueue T C).Run ⟨[], fun _ => [], []⟩ (operations es) s.toAtomic := by
  have hsound : LTS.Always Sound es s := h.always_of (C := fun _ _ => True) sound_start
    (fun _ _ _ hs hst _ => hs.step hst) fun _ _ => trivial
  exact ⟨⟨fun e he => (hsound.1 e he).excludes, hsound.2.excludes⟩, run_operations h⟩

/-- Two threads, of which one adds two commands while the other releases the first. -/
def twoThreads : List (Bool × CommandStep ℕ) :=
  [(true, .add 1), (true, .step), (false, .release), (true, .step), (false, .step), (true, .step),
    (true, .step), (false, .step), (true, .add 2), (false, .step), (true, .step), (false, .step),
    (false, .step), (false, .step), (true, .step), (false, .step), (true, .step)]

/-- The thread that releases tries in vain while the other has the lock, and the other way round. -/
theorem commands_atomic_two : ∃ es s, (system Bool ℕ).Run (start Bool ℕ) es s ∧
    s.command_queue = [] ∧ s.invoked = [1] ∧
    LTS.Always (fun s => Excludes s.command_lock.lock fun t => (s.phase t).holds = true) es s ∧
      (atomicQueue Bool ℕ).Run ⟨[], fun _ => [], []⟩ (operations es) s.toAtomic := by
  obtain ⟨s, hrun, hs⟩ := LTS.exists_run next (start Bool ℕ) twoThreads
    (fun s => s.command_queue = [] ∧ s.invoked = [1]) (by decide)
  exact ⟨_, s, hrun, (of_decide_eq_true hs).1, (of_decide_eq_true hs).2, commands_atomic hrun⟩

/-! ### No command is lost -/

theorem Steps.phase_of_ne {t v : T} {a : CommandStep C} (h : Steps s v a s') (hne : t ≠ v) :
    s'.phase t = s.phase t := by
  have hlock : ∀ p, (s.lockThen v p).phase t = s.phase t := fun p => by
    rcases lockThen_cases s v p with ⟨-, heq⟩ | ⟨-, heq⟩ <;> rw [heq]
    exact Function.update_of_ne hne _ _
  cases h with
  | lockToAdd => exact hlock _
  | lockToRelease => exact hlock _
  | _ => exact Function.update_of_ne hne _ _

/-- How many steps a thread has left, once it has the lock or the lock is free. -/
def left (s : Commands T C) (t : T) : ℕ :=
  match s.phase t with
  | .idle => 0
  | .lockToAdd _ => 4
  | .emplace _ => 3
  | .emplaced _ _ => 2
  | .unlockAdded => 1
  | .lockToRelease => s.command_queue.length + 6
  | .testEmpty => s.command_queue.length + 5
  | .assign => s.command_queue.length + 4
  | .clear commands => commands.length + 3
  | .unlockReleased commands => commands.length + 2
  | .invoke commands => commands.length + 1

/-- The thread has the lock, or could have it. -/
def Free (s : Commands T C) (t : T) : Prop :=
  s.command_lock.lock = false ∨ (s.phase t).holds = true

theorem exists_step {t : T} (hidle : s.phase t ≠ .idle) (hfree : Free s t) :
    ∃ s', Steps s t .step s' ∧ s'.left t < s.left t ∧ Free s' t := by
  have hlock : ∀ p, (s.phase t).holds = false →
      s.lockThen t p = ⟨⟨true⟩, s.command_queue, Function.update s.phase t p, s.invoked⟩ := by
    intro p hnot
    rcases lockThen_cases s t p with ⟨-, heq⟩ | ⟨hbusy, -⟩
    · exact heq
    · rcases hfree with hfree | hholds
      · exact absurd (hbusy.symm.trans hfree) Bool.noConfusion
      · exact absurd (hholds.symm.trans hnot) Bool.noConfusion
  cases hp : s.phase t with
  | idle => exact absurd hp hidle
  | lockToAdd command =>
    refine ⟨_, .lockToAdd hp, ?_⟩
    rw [hlock _ (by rw [hp]; rfl)]
    simp [left, Free, hp, Phase.holds]
  | lockToRelease =>
    refine ⟨_, .lockToRelease hp, ?_⟩
    rw [hlock _ (by rw [hp]; rfl)]
    simp [left, Free, hp, Phase.holds]
  | emplace => exact ⟨_, .emplace hp, by simp [left, goto, Free, hp, Phase.holds]⟩
  | emplaced => exact ⟨_, .emplaced hp, by simp [left, goto, Free, hp, Phase.holds]⟩
  | unlockAdded => exact ⟨_, .unlockAdded hp, by simp [left, goto, Free, hp, SpinLock.unlock]⟩
  | testEmpty =>
    refine ⟨_, .testEmpty hp, ?_⟩
    cases hqueue : s.command_queue <;> simp [left, goto, Free, hp, Phase.holds, hqueue]
  | assign => exact ⟨_, .assign hp, by simp [left, goto, Free, hp, Phase.holds]⟩
  | clear => exact ⟨_, .clear hp, by simp [left, goto, Free, hp, Phase.holds]⟩
  | unlockReleased =>
    exact ⟨_, .unlockReleased hp, by simp [left, goto, Free, hp, SpinLock.unlock]⟩
  | invoke commands =>
    have hunlocked : s.command_lock.lock = false := hfree.resolve_right (by simp [hp, Phase.holds])
    cases commands with
    | nil => exact ⟨_, .finish hp, by simp [left, goto, Free, hp, hunlocked]⟩
    | cons command commands =>
      exact ⟨_, .invoke hp, by simp [left, goto, Free, hp, hunlocked]⟩

/-- A thread that has the lock, or could have it, can come to the end of its call. -/
theorem exists_finish (t : T) (hfree : Free s t) : ∃ es s', (system T C).Run s es s' ∧
    s'.phase t = .idle ∧ s'.command_lock.lock = false ∧ ∀ u, u ≠ t → s'.phase u = s.phase u := by
  induction hn : s.left t using Nat.strong_induction_on generalizing s with
  | _ n ih =>
    by_cases hidle : s.phase t = .idle
    · exact ⟨[], s, .start, hidle, hfree.resolve_right (by simp [hidle, Phase.holds]), fun _ _ => rfl⟩
    · obtain ⟨s₁, hsteps, hlt, hfree₁⟩ := exists_step hidle hfree
      obtain ⟨es, s', hrun, hidle', hlock, hothers⟩ := ih _ (hn ▸ hlt) hfree₁ rfl
      refine ⟨_, s', (LTS.Run.start.snoc (steps_iff.2 hsteps)).append hrun, hidle', hlock,
        fun u hu => ?_⟩
      rw [hothers u hu, hsteps.phase_of_ne hu]

/-- **Nobody waits forever for the lock**: from every state that is reached, all threads can come to
the end of their calls. -/
theorem commands_progress [Finite T] (h : (system T C).Run (start T C) es s) :
    ∃ es' s', (system T C).Run s es' s' ∧ (∀ t, s'.phase t = .idle) ∧
      s'.command_lock.lock = false := by
  have hsound : Sound s := h.invariant sound_start fun _ _ _ hs hst => hs.step hst
  clear h
  induction hn : {t | s.phase t ≠ .idle}.ncard using Nat.strong_induction_on generalizing s with
  | _ n ih =>
    by_cases hall : ∀ t, s.phase t = .idle
    · refine ⟨[], s, .start, hall, ?_⟩
      rw [← Bool.not_eq_true, hsound.excludes.flag_iff]
      rintro ⟨t, ht⟩
      simp [hall t, Phase.holds] at ht
    · -- who has the lock, or else anybody, goes first
      obtain ⟨t, hidle, hfree⟩ : ∃ t, s.phase t ≠ .idle ∧ Free s t := by
        cases hlock : s.command_lock.lock with
        | false =>
          obtain ⟨t, ht⟩ := not_forall.1 hall
          exact ⟨t, ht, .inl hlock⟩
        | true =>
          obtain ⟨t, ht⟩ := hsound.excludes.flag_iff.1 hlock
          refine ⟨t, fun hidle => ?_, .inr ht⟩
          simp [hidle, Phase.holds] at ht
      obtain ⟨es₁, s₁, hrun₁, hidle₁, -, hothers⟩ := exists_finish t hfree
      have hfewer : {u | s₁.phase u ≠ .idle}.ncard < {u | s.phase u ≠ .idle}.ncard := by
        refine Set.ncard_lt_ncard ((Set.ssubset_iff_of_subset fun u hu => ?_).2
          ⟨t, hidle, fun ht => ht hidle₁⟩) (Set.toFinite _)
        have hut : u ≠ t := by
          rintro rfl
          exact hu hidle₁
        change s.phase u ≠ .idle
        rw [← hothers u hut]
        exact hu
      have hsound₁ : Sound s₁ := hrun₁.invariant hsound fun _ _ _ hs hst => hs.step hst
      obtain ⟨es₂, s', hrun₂, hdone⟩ := ih _ (hn ▸ hfewer) hsound₁ rfl
      exact ⟨_, s', hrun₁.append hrun₂, hdone⟩

/-- In the middle of it, one thread has read the queue and the other is invoking. -/
theorem commands_progress_two : ∃ es s, (system Bool ℕ).Run (start Bool ℕ) es s ∧
    s.phase true = .emplaced 2 [] ∧
    ∃ es' s', (system Bool ℕ).Run s es' s' ∧ (∀ t, s'.phase t = .idle) ∧
      s'.command_lock.lock = false := by
  obtain ⟨s, hrun, hs⟩ := LTS.exists_run next (start Bool ℕ) twoThreads
    (fun s => s.phase true = .emplaced 2 []) (by decide)
  exact ⟨_, s, hrun, of_decide_eq_true hs, commands_progress hrun⟩

end Commands

end Client

end ClientServer
