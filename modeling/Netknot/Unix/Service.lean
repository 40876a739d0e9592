import Mathlib.Logic.Function.Basic
import Netknot.Except
import Netknot.Lib.Machine

/-!
# The Unix Service

The control part of a `UnixIOService` with `n` worker threads: `run()`, `stop()`, and
`_workerThreadProc`. The backend is unfinished. A worker waits for its `startCond` and then
loops without doing anything, so it never ends, no callback is ever invoked, and the
`pthread_cond_broadcast` behind the loop is never reached; `run()` leaves its
`pthread_cond_wait` only by a spurious wake-up.

`stop()` can be called by any thread at any time, and any number of calls can be under way:
`stops c` is where call `c` is.

## Main results

* `running_false`: throughout `run()` the flag `_isRunning` is false; it is set when
  `run()` is about to return.
-/

namespace Netknot.Unix

/-- The program points of `_workerThreadProc`. -/
inductive WorkerPc
  /-- Before `pthread_cond_wait(&tld->startCond, ..)`. -/
  | created
  /-- In `pthread_cond_wait(&tld->startCond, ..)`. -/
  | waiting
  /-- In `while (true)`. -/
  | looping
  deriving DecidableEq, Repr

/-- One worker thread and its `ThreadLocalData`. -/
structure Worker where
  pc : WorkerPc := .created
  terminate : Bool := false
  exceptionStorage : ExceptionPointer := none
  deriving DecidableEq, Repr

/-- The program points of `run()`. The index is the thread its current loop is at. -/
inductive RunPc
  /-- No `run()` is executing. -/
  | outside
  /-- The first loop over `exceptionStorage`. -/
  | scanning (i : ℕ)
  /-- The loop of `pthread_cond_broadcast(&i.startCond)`. -/
  | starting (i : ℕ)
  /-- Before `pthread_cond_wait(&terminateNotifyConditionVar, ..)`. -/
  | beforeWait
  /-- In `pthread_cond_wait(&terminateNotifyConditionVar, ..)`. -/
  | asleep
  /-- The second loop over `exceptionStorage`. -/
  | collecting (i : ℕ)
  /-- Before `_isRunning = true`. -/
  | leaving
  deriving DecidableEq, Repr

/-- The program points of a `stop()` call. -/
inductive StopPc
  /-- Not called yet. -/
  | idle
  /-- The loop that sets `terminate`. -/
  | terminating (i : ℕ)
  /-- The loop of `pthread_join`. -/
  | joining (i : ℕ)
  /-- The loop over `exceptionStorage`. -/
  | collecting (i : ℕ)
  /-- Before `_isRunning = false`. -/
  | clearing
  /-- It returned. -/
  | returned (e : ExceptionPointer)
  deriving DecidableEq, Repr

/-- A call of `stop()`. -/
abbrev StopId := ℕ

/-- The state of the service with `n` workers. -/
structure State (n : ℕ) where
  workers : Fin n → Worker
  runPc : RunPc
  stops : StopId → StopPc
  isRunning : Bool
  /-- What the last `run()` returned. -/
  result : Option ExceptionPointer
  /-- The process ended in `std::terminate`. -/
  aborted : Bool

/-- Which thread moves. -/
inductive Label (n : ℕ)
  /-- Worker `w`, to its next step. -/
  | worker (w : Fin n)
  /-- A thread calls `run()`. -/
  | call
  /-- `run()`, to its next step; out of its wait only by a spurious wake-up. -/
  | run
  /-- The `stop()` call `c`, to its next step. -/
  | stop (c : StopId)
  deriving DecidableEq, Repr

namespace State

/-- The service as `createDefaultIOService` returns it. -/
def init (n : ℕ) : State n where
  workers := fun _ => {}
  runPc := .outside
  stops := fun _ => .idle
  isRunning := false
  result := none
  aborted := false

/-- Replace one worker. -/
def setWorker {n : ℕ} (s : State n) (w : Fin n) (v : Worker) : State n :=
  { s with workers := Function.update s.workers w v }

/-- Move one call of `stop()`. -/
def setStop {n : ℕ} (s : State n) (c : StopId) (pc : StopPc) : State n :=
  { s with stops := Function.update s.stops c pc }

/-- `_workerThreadProc`. A waiting worker may wake without having been signalled. -/
def workerStep {n : ℕ} (s : State n) (w : Fin n) : Option (State n) :=
  match (s.workers w).pc with
  | .created => some (s.setWorker w { s.workers w with pc := .waiting })
  | .waiting => some (s.setWorker w { s.workers w with pc := .looping })
  | .looping => some s

/-- `pthread_cond_broadcast(&i.startCond)`: only a waiting thread is woken. -/
def broadcastStart {n : ℕ} (s : State n) (i : Fin n) : State n :=
  if (s.workers i).pc = .waiting then
    s.setWorker i { s.workers i with pc := .looping }
  else s

/-- `NETKNOT_RETURN_IF_EXCEPT(std::move(i.exceptionStorage))` in `run()`. -/
def takeException {n : ℕ} (s : State n) (i : Fin n) (next : RunPc) : State n :=
  match (s.workers i).exceptionStorage with
  | none => { s with runPc := next }
  | some e =>
      { s.setWorker i { s.workers i with exceptionStorage := none } with
        runPc := .outside, result := some (some e) }

/-- The entry of `run()`. One `run()` executes at a time: it is called when no other one is. -/
def runCall {n : ℕ} (s : State n) : Option (State n) :=
  if s.runPc = .outside then
    if s.isRunning then some { s with aborted := true } else some { s with runPc := .scanning 0 }
  else none

/-- `run()` from the program point it is at. -/
def runStep {n : ℕ} (s : State n) : Option (State n) :=
  match s.runPc with
  | .outside => none
  | .scanning i =>
      if h : i < n then some (s.takeException ⟨i, h⟩ (.scanning (i + 1)))
      else some { s with runPc := .starting 0 }
  | .starting i =>
      if h : i < n then some { s.broadcastStart ⟨i, h⟩ with runPc := .starting (i + 1) }
      else some { s with runPc := .beforeWait }
  | .beforeWait => some { s with runPc := .asleep }
  | .asleep => some { s with runPc := .collecting 0 }
  | .collecting i =>
      if h : i < n then some (s.takeException ⟨i, h⟩ (.collecting (i + 1)))
      else some { s with runPc := .leaving }
  | .leaving => some { s with isRunning := true, runPc := .outside, result := some none }

/-- `stop()` from the program point call `c` is at. `pthread_join` blocks for ever, as no
worker ends. -/
def stopStep {n : ℕ} (s : State n) (c : StopId) : Option (State n) :=
  match s.stops c with
  | .idle =>
      if s.isRunning then some (s.setStop c (.terminating 0)) else some { s with aborted := true }
  | .terminating i =>
      if h : i < n then
        some ((s.setWorker ⟨i, h⟩ { s.workers ⟨i, h⟩ with terminate := true }).setStop c
          (.terminating (i + 1)))
      else some (s.setStop c (.joining 0))
  | .joining i => if i < n then none else some (s.setStop c (.collecting 0))
  | .collecting i =>
      if h : i < n then
        match (s.workers ⟨i, h⟩).exceptionStorage with
        | none => some (s.setStop c (.collecting (i + 1)))
        | some e =>
            some ((s.setWorker ⟨i, h⟩ { s.workers ⟨i, h⟩ with exceptionStorage := none }).setStop c
              (.returned (some e)))
      else some (s.setStop c .clearing)
  | .clearing => some ({ s with isRunning := false }.setStop c (.returned none))
  | .returned _ => none

/-- One step of the service; nothing moves after `std::terminate`. -/
def step {n : ℕ} (s : State n) (l : Label n) : Option (State n) :=
  if s.aborted then none
  else
    match l with
    | .worker w => s.workerStep w
    | .call => s.runCall
    | .run => s.runStep
    | .stop c => s.stopStep c

/-! ### The flag during `run()` -/

/-- While `run()` executes, `_isRunning` is false. -/
def FlagDown {n : ℕ} (s : State n) : Prop := s.runPc ≠ .outside → s.isRunning = false

/-- What a step can do to the flag and to `run()`: nothing; lower the flag; enter `run()`
with the flag down; move in `run()`; or return from it. -/
theorem flag_of_step {n : ℕ} {s t : State n} {l : Label n} (hstep : s.step l = some t) :
    t.runPc = .outside ∨ t.isRunning = false ∨
      (s.runPc ≠ .outside ∧ t.isRunning = s.isRunning) ∨
      (t.runPc = s.runPc ∧ t.isRunning = s.isRunning) := by
  unfold step at hstep
  split at hstep
  · cases hstep
  cases l with
  | worker w =>
      simp only [workerStep] at hstep
      split at hstep <;> obtain rfl := Option.some.inj hstep <;>
        exact .inr (.inr (.inr ⟨rfl, rfl⟩))
  | call =>
      simp only [runCall] at hstep
      split at hstep
      · split at hstep
        · obtain rfl := Option.some.inj hstep
          exact .inr (.inr (.inr ⟨rfl, rfl⟩))
        · rename_i hflag
          obtain rfl := Option.some.inj hstep
          exact .inr (.inl (by simpa using hflag))
      · cases hstep
  | run =>
      have htake : ∀ (i : Fin n) (next : RunPc), (s.takeException i next).isRunning =
          s.isRunning := by
        intro i next
        unfold takeException
        split <;> rfl
      have hbroadcast : ∀ i : Fin n, (s.broadcastStart i).isRunning = s.isRunning := by
        intro i
        unfold broadcastStart
        split <;> rfl
      simp only [runStep] at hstep
      split at hstep
      · cases hstep
      · rename_i i hpc
        split at hstep <;> obtain rfl := Option.some.inj hstep
        · exact .inr (.inr (.inl ⟨by simp [hpc], htake _ _⟩))
        · exact .inr (.inr (.inl ⟨by simp [hpc], rfl⟩))
      · rename_i i hpc
        split at hstep <;> obtain rfl := Option.some.inj hstep
        · exact .inr (.inr (.inl ⟨by simp [hpc], hbroadcast _⟩))
        · exact .inr (.inr (.inl ⟨by simp [hpc], rfl⟩))
      · rename_i hpc
        obtain rfl := Option.some.inj hstep
        exact .inr (.inr (.inl ⟨by simp [hpc], rfl⟩))
      · rename_i hpc
        obtain rfl := Option.some.inj hstep
        exact .inr (.inr (.inl ⟨by simp [hpc], rfl⟩))
      · rename_i i hpc
        split at hstep <;> obtain rfl := Option.some.inj hstep
        · exact .inr (.inr (.inl ⟨by simp [hpc], htake _ _⟩))
        · exact .inr (.inr (.inl ⟨by simp [hpc], rfl⟩))
      · obtain rfl := Option.some.inj hstep
        exact .inl rfl
  | stop c =>
      simp only [stopStep] at hstep
      split at hstep
      · split at hstep <;> obtain rfl := Option.some.inj hstep <;>
          exact .inr (.inr (.inr ⟨rfl, rfl⟩))
      · split at hstep <;> obtain rfl := Option.some.inj hstep <;>
          exact .inr (.inr (.inr ⟨rfl, rfl⟩))
      · split at hstep
        · cases hstep
        · obtain rfl := Option.some.inj hstep
          exact .inr (.inr (.inr ⟨rfl, rfl⟩))
      · split at hstep
        · split at hstep <;> obtain rfl := Option.some.inj hstep <;>
            exact .inr (.inr (.inr ⟨rfl, rfl⟩))
        · obtain rfl := Option.some.inj hstep
          exact .inr (.inr (.inr ⟨rfl, rfl⟩))
      · obtain rfl := Option.some.inj hstep
        exact .inr (.inl rfl)
      · cases hstep

/-- The step lemma of `FlagDown`: every step keeps it. -/
theorem FlagDown.step {n : ℕ} {s t : State n} {l : Label n} (h : s.FlagDown)
    (hstep : s.step l = some t) : t.FlagDown := by
  intro hrun
  rcases flag_of_step hstep with hout | hdown | ⟨hpc, hsame⟩ | ⟨hpc, hsame⟩
  · exact absurd hout hrun
  · exact hdown
  · exact hsame.trans (h hpc)
  · exact hsame.trans (h (hpc ▸ hrun))

end State

/-- The service with `n` workers as a machine. -/
def service (n : ℕ) : Machine (State n) (Label n) where
  init := State.init n
  step := State.step

/-- **Throughout `run()`** the flag is down, in every run of the service. -/
theorem running_false {n : ℕ} {s : State n} (h : (service n).Reachable s)
    (hrun : s.runPc ≠ .outside) : s.isRunning = false :=
  h.invariant (I := State.FlagDown) (fun hout => absurd rfl hout)
    (fun _ _ _ hI hs => hI.step hs) hrun

end Netknot.Unix
