import Mathlib.Logic.Function.Basic
import Netknot.Lib.Machine
import Netknot.Win32.Submit

/-!
# The Completion-Port Service

The state of a `Win32IOService` with `n` worker threads and everything that runs against
it: any number of submit calls, the kernel's completion queue, the workers in
`_workerThreadProc`, and the thread in `run()`. A label names the thread that moves and
what its environment answers; `step` is the step that thread takes from its program point.

## What is one step

A step does the work between two points at which another thread can observe a
difference. `currentTasksMutex` is not modelled: the lookup under it is one step, and the
`decRef` before the unlock another, so the model has the runs of the program and some more.
The reference an `RcObjectPtr` temporary takes for the duration of one call (the argument
of `contains` and `remove`) is left out.

Submit calls are made by threads of their own. A callback that submits while its worker
waits for it to return is a run of this model in which that worker does not move.
`stop()` is called by callbacks: it is part of the worker's program.

The condition variable remembers nothing: `WakeAllConditionVariable` moves `run()` on only
when it is asleep. It may also wake without being notified (`RunChoice.spurious`), as the
documentation of `SleepConditionVariableCS` allows.

`stopStored` and `stopDone` are history: whether some `stop()` of the current run has
stored `false` in `_isRunning`, and whether some `stop()` of it has returned. No step reads
them.

## Main results

* `takes_of_waitingStep`, `handles_of_handlingStep`, `runs_of_runStep`: what a worker and `run()`
  can do at each of their program points. Every invariant of the service is derived from these.
-/

namespace Netknot.Win32

/-- A submit call, and with it the task it makes. -/
abbrev OpId := ℕ

/-- What the completion port queues. -/
inductive Packet
  /-- The packet `run()` posts: key zero, no overlapped block. -/
  | zero
  /-- The operation completed; the key is the service. -/
  | op (o : OpId) (szTransferred : ℕ)
  /-- The operation failed: `GetQueuedCompletionStatus` will return `FALSE` with its
  overlapped block, and `WSAGetLastError` give this code. -/
  | opFailed (o : OpId) (code : ℕ)
  deriving DecidableEq, Repr

/-- The operation a packet belongs to. -/
def Packet.op? : Packet → Option OpId
  | .zero => none
  | .op o _ => some o
  | .opFailed o _ => some o

/-- The key of a packet is not null: `createSocket` associates every socket under
`(ULONG_PTR)this`, and `run()` posts its packets under zero. -/
def Packet.keyed : Packet → Bool
  | .zero => false
  | .op _ _ | .opFailed _ _ => true

/-- The program points of `_workerThreadProc`. -/
inductive WorkerPc
  /-- Created suspended, not resumed yet. -/
  | suspended
  /-- In `GetQueuedCompletionStatus`. -/
  | waiting
  /-- With the packet of an operation in hand. -/
  | handling (o : OpId) (szTransferred : ℕ) (stage : Stage)
  /-- On the way out after `GetQueuedCompletionStatus` returned `FALSE`. -/
  | returning
  /-- The thread has ended. -/
  | exited
  deriving DecidableEq, Repr

/-- One worker thread and its `ThreadLocalData`. -/
structure Worker where
  pc : WorkerPc := .suspended
  exceptionStorage : ExceptionPointer := none
  deriving DecidableEq, Repr

/-- The program points of `run()`. The index is the thread its current loop is at. -/
inductive RunPc
  /-- No `run()` is executing. -/
  | outside
  /-- The first loop over `exceptionStorage`. -/
  | scanning (i : ℕ)
  /-- Before `_isRunning = true`. -/
  | starting
  /-- The loop of `ResumeThread`. -/
  | resuming (i : ℕ)
  /-- Before `SleepConditionVariableCS`. -/
  | beforeSleep
  /-- Blocked in `SleepConditionVariableCS`. -/
  | asleep
  /-- The loop of `PostQueuedCompletionStatus`. -/
  | posting (i : ℕ)
  /-- The loop of `WaitForSingleObject`. -/
  | joining (i : ℕ)
  /-- The last loop over `exceptionStorage`. -/
  | collecting (i : ℕ)
  deriving DecidableEq, Repr

/-- The state of the service with `n` workers. -/
structure State (n : ℕ) where
  calls : OpId → Call
  currentTasks : List OpId
  queue : List Packet
  workers : Fin n → Worker
  runPc : RunPc
  isRunning : Bool
  /-- What the last `run()` returned. -/
  result : Option ExceptionPointer
  /-- The process ended in `std::terminate`. -/
  aborted : Option Abort
  stopStored : Bool
  stopDone : Bool

/-- The choices of a worker's environment. -/
inductive WorkerChoice
  /-- The next step, where there is nothing to choose; in `GetQueuedCompletionStatus`, to
  return the head of the queue unless that is a failed operation. -/
  | go
  /-- `GetQueuedCompletionStatus` returns `FALSE` with the failed operation at the head of
  the queue; `allocated` is the outcome of allocating the `NetworkError`. -/
  | failed (allocated : Bool)
  /-- `GetQueuedCompletionStatus` returns `FALSE` without a packet. -/
  | portFailed (code : ℕ) (allocated : Bool)
  /-- The running callback calls `stop()`. -/
  | stop
  /-- The running callback returns. -/
  | ret (e : ExceptionPointer)
  deriving DecidableEq, Repr

/-- The choices around `run()`. -/
inductive RunChoice
  /-- A thread calls `run()`. -/
  | call
  /-- The next step. -/
  | go
  /-- `SleepConditionVariableCS` returns without having been notified. -/
  | spurious
  deriving DecidableEq, Repr

/-- Which thread moves, or what the kernel does. -/
inductive Label (n : ℕ)
  | submit (o : OpId) (choice : SubmitChoice)
  | complete (o : OpId) (szTransferred : ℕ)
  | completeFailed (o : OpId) (code : ℕ)
  | worker (w : Fin n) (choice : WorkerChoice)
  | run (choice : RunChoice)
  deriving DecidableEq, Repr

namespace State

/-- The service as `createIOCPIOService` returns it: the workers are suspended. -/
def init (n : ℕ) : State n where
  calls := fun _ => {}
  currentTasks := []
  queue := []
  workers := fun _ => {}
  runPc := .outside
  isRunning := false
  result := none
  aborted := none
  stopStored := false
  stopDone := false

/-- Replace one call. -/
def setCall {n : ℕ} (s : State n) (o : OpId) (c : Call) : State n :=
  { s with calls := Function.update s.calls o c }

/-- Replace one worker. -/
def setWorker {n : ℕ} (s : State n) (w : Fin n) (v : Worker) : State n :=
  { s with workers := Function.update s.workers w v }

/-- Move one worker. -/
def setPc {n : ℕ} (s : State n) (w : Fin n) (pc : WorkerPc) : State n :=
  s.setWorker w { s.workers w with pc := pc }

/-- `WakeAllConditionVariable(&terminateNotifyConditionVar)`. -/
def wakeAll {n : ℕ} (s : State n) : State n :=
  if s.runPc = .asleep then { s with runPc := .posting 0 } else s

/-- `std::terminate`. -/
def abort {n : ℕ} (s : State n) (reason : Abort) : State n :=
  { s with aborted := some reason }

/-! ### Submit calls -/

/-- A step of a submit call. -/
def submitStep {n : ℕ} (s : State n) (o : OpId) (choice : SubmitChoice) : Option (State n) :=
  ((s.calls o).submit choice).map fun
    | .next c => s.setCall o c
    | .registers c => { s.setCall o c with currentTasks := o :: s.currentTasks }
    | .aborts reason => s.abort reason

/-! ### The kernel -/

/-- The kernel completes a pending operation. -/
def completeStep {n : ℕ} (s : State n) (o : OpId) (szTransferred : ℕ) : Option (State n) :=
  if (s.calls o).kernelPending = true then
    some { s.setCall o (s.calls o).complete with queue := s.queue ++ [.op o szTransferred] }
  else none

/-- The kernel fails a pending operation. -/
def completeFailedStep {n : ℕ} (s : State n) (o : OpId) (code : ℕ) : Option (State n) :=
  if (s.calls o).kernelPending = true then
    some { s.setCall o (s.calls o).completeFailed with queue := s.queue ++ [.opFailed o code] }
  else none

/-! ### The workers -/

/-- `_workerThreadProc`, lines 26 to 30: `GetQueuedCompletionStatus` returned `FALSE`. -/
def portError {n : ℕ} (s : State n) (w : Fin n) (code : ℕ) (allocated : Bool) : State n :=
  match wsaLastErrorToExcept allocated code with
  | none => s.abort (.unlistedError code)
  | some e => s.setWorker w { pc := .returning, exceptionStorage := e }

/-- `_workerThreadProc` at the head of its loop. -/
def waitingStep {n : ℕ} (s : State n) (w : Fin n) : WorkerChoice → Option (State n)
  | .go =>
      match s.queue with
      | [] | .opFailed _ _ :: _ => none
      | packet :: rest =>
          -- `if (!key) break;`
          if !packet.keyed then some ({ s with queue := rest }.setPc w .exited)
          else
            match packet with
            | .op o sz =>
                some ((({ s with queue := rest } : State n).setCall o
                  ((s.calls o).atStage .dequeued)).setPc w (.handling o sz .dequeued))
            | .zero | .opFailed _ _ => none
  | .failed allocated =>
      match s.queue with
      | .opFailed o code :: rest =>
          some ((({ s with queue := rest } : State n).setCall o
            (s.calls o).takeFailed).portError w code allocated)
      | _ => none
  | .portFailed code allocated => some (s.portError w code allocated)
  | _ => none

/-- Worker `w` does `c` to the call whose packet it has in hand and moves on to `stage`. -/
def advance {n : ℕ} (s : State n) (w : Fin n) (o : OpId) (sz : ℕ) (c : Call)
    (stage : Stage) : State n :=
  (s.setCall o c).setPc w (.handling o sz stage)

/-- `currentTasks.contains` and, when it answers yes, `currentTasks.remove`. -/
def lookup {n : ℕ} (s : State n) (w : Fin n) (o : OpId) (sz : ℕ) : State n :=
  if o ∈ s.currentTasks then
    { s with currentTasks := s.currentTasks.erase o }.advance w o sz (s.calls o).remove .removed
  else s.advance w o sz ((s.calls o).atStage (.dropRaw false false)) (.dropRaw false false)

/-- `Win32IOService::stop`, up to the guard. -/
def stopGuard {n : ℕ} (s : State n) (w : Fin n) (o : OpId) (sz : ℕ) : State n :=
  if s.isRunning then s.advance w o sz ((s.calls o).atStage .stopStore) .stopStore
  else s.abort .stopGuard

/-- The callback returned: `tld->exceptionStorage` is assigned what it returned. -/
def callbackReturned {n : ℕ} (s : State n) (w : Fin n) (o : OpId) (sz : ℕ)
    (e : ExceptionPointer) : State n :=
  let stage := if e.isSome then .failing else .dropTask false
  (s.setCall o ((s.calls o).atStage stage)).setWorker w
    { pc := .handling o sz stage, exceptionStorage := e }

/-- `_workerThreadProc` with the packet of operation `o` in hand. -/
def handlingStep {n : ℕ} (s : State n) (w : Fin n) (o : OpId) (sz : ℕ) :
    Stage → WorkerChoice → Option (State n)
  | .dequeued, .go => some (s.advance w o sz (s.calls o).holdRaw .locked)
  | .locked, .go => some (s.lookup w o sz)
  | .removed, .go => some (s.advance w o sz (s.calls o).dropOverlappedRef .unlocked)
  | .unlocked, .go => some (s.advance w o sz ((s.calls o).addTransferred sz) .counted)
  | .counted, .go => some (s.advance w o sz (s.calls o).setDone .marked)
  | .marked, .go => some (s.advance w o sz (s.calls o).invoke .callback)
  | .callback, .stop => some (s.stopGuard w o sz)
  | .stopStore, .go =>
      some ({ s with isRunning := false, stopStored := true }.advance w o sz
        ((s.calls o).atStage .stopWake) .stopWake)
  | .stopWake, .go =>
      some ({ s.wakeAll with stopDone := true }.advance w o sz
        ((s.calls o).atStage .callback) .callback)
  | .callback, .ret e => some (s.callbackReturned w o sz e)
  | .failing, .go =>
      some (s.wakeAll.advance w o sz ((s.calls o).atStage (.dropTask true)) (.dropTask true))
  | .dropTask exits, .go =>
      some (s.advance w o sz ((s.calls o).dropTask exits) (.dropRaw exits true))
  | .dropRaw exits hit, .go =>
      some ((s.setCall o ((s.calls o).dropRaw hit)).setPc w
        (if exits then .exited else .waiting))
  | _, _ => none

/-- A step of `_workerThreadProc`. -/
def workerStep {n : ℕ} (s : State n) (w : Fin n) (choice : WorkerChoice) : Option (State n) :=
  match (s.workers w).pc with
  | .waiting => s.waitingStep w choice
  | .handling o sz stage => s.handlingStep w o sz stage choice
  | .returning => if choice = .go then some (s.setPc w .exited) else none
  | .suspended => none
  | .exited => none

/-! ### `run()` -/

/-- The entry of `run()`: the guard, and the history of a new run. One `run()` executes at a
time: it is called when no other one is, which is also what its guard is there for. -/
def runCall {n : ℕ} (s : State n) : State n :=
  if s.isRunning then s.abort .runGuard
  else { s with runPc := .scanning 0, stopStored := false, stopDone := false }

/-- `NETKNOT_RETURN_IF_EXCEPT(std::move(i.exceptionStorage))` for thread `i`: a stored
exception is moved out and returned; otherwise the loop goes on to `next`. -/
def takeException {n : ℕ} (s : State n) (i : Fin n) (next : RunPc) : State n :=
  match (s.workers i).exceptionStorage with
  | none => { s with runPc := next }
  | some e =>
      { s.setWorker i { s.workers i with exceptionStorage := none } with
        runPc := .outside, result := some (some e) }

/-- `ResumeThread(i.hThread)`: only a suspended thread is affected. -/
def resume {n : ℕ} (s : State n) (i : Fin n) : State n :=
  if (s.workers i).pc = .suspended then s.setPc i .waiting else s

/-- `run()` from the program point it is at. -/
def runGo {n : ℕ} (s : State n) : Option (State n) :=
  match s.runPc with
  | .outside => none
  | .scanning i =>
      if h : i < n then some (s.takeException ⟨i, h⟩ (.scanning (i + 1)))
      else some { s with runPc := .starting }
  | .starting => some { s with isRunning := true, runPc := .resuming 0 }
  | .resuming i =>
      if h : i < n then some { s.resume ⟨i, h⟩ with runPc := .resuming (i + 1) }
      else some { s with runPc := .beforeSleep }
  | .beforeSleep => some { s with runPc := .asleep }
  | .asleep => none
  | .posting i =>
      if i < n then some { s with queue := s.queue ++ [.zero], runPc := .posting (i + 1) }
      else some { s with runPc := .joining 0 }
  | .joining i =>
      if h : i < n then
        if (s.workers ⟨i, h⟩).pc = .exited then some { s with runPc := .joining (i + 1) }
        else none
      else some { s with runPc := .collecting 0 }
  | .collecting i =>
      if h : i < n then some (s.takeException ⟨i, h⟩ (.collecting (i + 1)))
      else some { s with runPc := .outside, result := some none }

/-- A step of `run()`. -/
def runStep {n : ℕ} (s : State n) : RunChoice → Option (State n)
  | .call => if s.runPc = .outside then some s.runCall else none
  | .go => s.runGo
  | .spurious => if s.runPc = .asleep then some { s with runPc := .posting 0 } else none

/-- One step of the service; nothing moves after `std::terminate`. -/
def step {n : ℕ} (s : State n) (l : Label n) : Option (State n) :=
  if s.aborted.isSome then none
  else
    match l with
    | .submit o choice => s.submitStep o choice
    | .complete o sz => s.completeStep o sz
    | .completeFailed o code => s.completeFailedStep o code
    | .worker w choice => s.workerStep w choice
    | .run choice => s.runStep choice

/-! ### What a step can do -/

/-- **What a worker at the head of its loop does**: it takes a packet, or
`GetQueuedCompletionStatus` returns `FALSE`, with a packet or without one. -/
inductive Takes {n : ℕ} (s : State n) (w : Fin n) : WorkerChoice → State n → Prop
  | zero {rest : List Packet} (queue : s.queue = .zero :: rest) :
      Takes s w .go ({ s with queue := rest }.setPc w .exited)
  | op {o : OpId} {sz : ℕ} {rest : List Packet} (queue : s.queue = .op o sz :: rest) :
      Takes s w .go ((({ s with queue := rest } : State n).setCall o
        ((s.calls o).atStage .dequeued)).setPc w (.handling o sz .dequeued))
  | opFailed {o : OpId} {code : ℕ} {rest : List Packet} (queue : s.queue = .opFailed o code :: rest)
      (allocated : Bool) :
      Takes s w (.failed allocated) ((({ s with queue := rest } : State n).setCall o
        (s.calls o).takeFailed).portError w code allocated)
  | portFailed (code : ℕ) (allocated : Bool) :
      Takes s w (.portFailed code allocated) (s.portError w code allocated)

/-- The inversion of `waitingStep`: the worker takes what is first in the queue, or leaves. -/
theorem takes_of_waitingStep {n : ℕ} {s t : State n} {w : Fin n} {choice : WorkerChoice}
    (hstep : s.waitingStep w choice = some t) : s.Takes w choice t := by
  cases choice with
  | go =>
      cases hqueue : s.queue with
      | nil =>
          simp only [waitingStep, hqueue] at hstep
          cases hstep
      | cons packet rest =>
          cases packet with
          | zero =>
              simp only [waitingStep, hqueue, Packet.keyed] at hstep
              obtain rfl := Option.some.inj hstep
              exact .zero hqueue
          | op o sz =>
              simp only [waitingStep, hqueue, Packet.keyed] at hstep
              obtain rfl := Option.some.inj hstep
              exact .op hqueue
          | opFailed o code =>
              simp only [waitingStep, hqueue] at hstep
              cases hstep
  | failed allocated =>
      simp only [waitingStep] at hstep
      split at hstep
      · rename_i o code rest hqueue
        obtain rfl := Option.some.inj hstep
        exact .opFailed hqueue allocated
      · cases hstep
  | portFailed code allocated =>
      obtain rfl := Option.some.inj hstep
      exact .portFailed code allocated
  | stop => cases hstep
  | ret e => cases hstep

/-- **What a worker with a packet in hand does** at each stage. -/
inductive Handles {n : ℕ} (s : State n) (w : Fin n) (o : OpId) (sz : ℕ) :
    Stage → WorkerChoice → State n → Prop
  | hold : Handles s w o sz .dequeued .go (s.advance w o sz (s.calls o).holdRaw .locked)
  | lookup : Handles s w o sz .locked .go (s.lookup w o sz)
  | dropRef :
      Handles s w o sz .removed .go (s.advance w o sz (s.calls o).dropOverlappedRef .unlocked)
  | addTransferred :
      Handles s w o sz .unlocked .go (s.advance w o sz ((s.calls o).addTransferred sz) .counted)
  | setDone : Handles s w o sz .counted .go (s.advance w o sz (s.calls o).setDone .marked)
  | invoke : Handles s w o sz .marked .go (s.advance w o sz (s.calls o).invoke .callback)
  | stop : Handles s w o sz .callback .stop (s.stopGuard w o sz)
  | stopStore :
      Handles s w o sz .stopStore .go ({ s with isRunning := false, stopStored := true }.advance w
        o sz ((s.calls o).atStage .stopWake) .stopWake)
  | stopWake :
      Handles s w o sz .stopWake .go ({ s.wakeAll with stopDone := true }.advance w o sz
        ((s.calls o).atStage .callback) .callback)
  | ret (e : ExceptionPointer) :
      Handles s w o sz .callback (.ret e) (s.callbackReturned w o sz e)
  | fail :
      Handles s w o sz .failing .go
        (s.wakeAll.advance w o sz ((s.calls o).atStage (.dropTask true)) (.dropTask true))
  | dropTask (exits : Bool) :
      Handles s w o sz (.dropTask exits) .go
        (s.advance w o sz ((s.calls o).dropTask exits) (.dropRaw exits true))
  | dropRaw (exits hit : Bool) :
      Handles s w o sz (.dropRaw exits hit) .go ((s.setCall o ((s.calls o).dropRaw hit)).setPc w
        (if exits then .exited else .waiting))

/-- The inversion of `handlingStep`: the worker handles its packet stage by stage. -/
theorem handles_of_handlingStep {n : ℕ} {s t : State n} {w : Fin n} {o : OpId} {sz : ℕ}
    {stage : Stage} {choice : WorkerChoice}
    (hstep : s.handlingStep w o sz stage choice = some t) : s.Handles w o sz stage choice t := by
  unfold handlingStep at hstep
  split at hstep <;> cases hstep
  · exact .hold
  · exact .lookup
  · exact .dropRef
  · exact .addTransferred
  · exact .setDone
  · exact .invoke
  · exact .stop
  · exact .stopStore
  · exact .stopWake
  · exact .ret _
  · exact .fail
  · exact .dropTask _
  · exact .dropRaw _ _

/-- **What `run()` does** at each of its program points. -/
inductive Runs {n : ℕ} (s : State n) : RunChoice → State n → Prop
  | guard (pc : s.runPc = .outside) (running : s.isRunning = true) :
      Runs s .call (s.abort .runGuard)
  | enter (pc : s.runPc = .outside) (idle : s.isRunning = false) :
      Runs s .call { s with runPc := .scanning 0, stopStored := false, stopDone := false }
  | spurious (pc : s.runPc = .asleep) : Runs s .spurious { s with runPc := .posting 0 }
  | scan (i : Fin n) (pc : s.runPc = .scanning i) :
      Runs s .go (s.takeException i (.scanning (i + 1)))
  | scanned {i : ℕ} (pc : s.runPc = .scanning i) (all : n ≤ i) :
      Runs s .go { s with runPc := .starting }
  | start (pc : s.runPc = .starting) :
      Runs s .go { s with isRunning := true, runPc := .resuming 0 }
  | resume (i : Fin n) (pc : s.runPc = .resuming i) (worker : (s.workers i).pc = .suspended) :
      Runs s .go { s.setPc i .waiting with runPc := .resuming (i + 1) }
  | skip (i : Fin n) (pc : s.runPc = .resuming i) (worker : (s.workers i).pc ≠ .suspended) :
      Runs s .go { s with runPc := .resuming (i + 1) }
  | resumed {i : ℕ} (pc : s.runPc = .resuming i) (all : n ≤ i) :
      Runs s .go { s with runPc := .beforeSleep }
  | sleep (pc : s.runPc = .beforeSleep) : Runs s .go { s with runPc := .asleep }
  | post (i : Fin n) (pc : s.runPc = .posting i) :
      Runs s .go { s with queue := s.queue ++ [.zero], runPc := .posting (i + 1) }
  | posted {i : ℕ} (pc : s.runPc = .posting i) (all : n ≤ i) :
      Runs s .go { s with runPc := .joining 0 }
  | join (i : Fin n) (pc : s.runPc = .joining i) (worker : (s.workers i).pc = .exited) :
      Runs s .go { s with runPc := .joining (i + 1) }
  | joined {i : ℕ} (pc : s.runPc = .joining i) (all : n ≤ i) :
      Runs s .go { s with runPc := .collecting 0 }
  | collect (i : Fin n) (pc : s.runPc = .collecting i) :
      Runs s .go (s.takeException i (.collecting (i + 1)))
  | collected {i : ℕ} (pc : s.runPc = .collecting i) (all : n ≤ i) :
      Runs s .go { s with runPc := .outside, result := some none }

/-- The inversion of `runGo`: `run()` goes on from where it is. -/
theorem runs_of_runGo {n : ℕ} {s t : State n} (hstep : s.runGo = some t) : s.Runs .go t := by
  rw [runGo] at hstep
  split at hstep
  · cases hstep
  · rename_i i hpc
    split at hstep
    · rename_i hi
      obtain rfl := Option.some.inj hstep
      exact .scan ⟨i, hi⟩ hpc
    · rename_i hi
      obtain rfl := Option.some.inj hstep
      exact .scanned hpc (Nat.le_of_not_lt hi)
  · rename_i hpc
    obtain rfl := Option.some.inj hstep
    exact .start hpc
  · rename_i i hpc
    split at hstep
    · rename_i hi
      obtain rfl := Option.some.inj hstep
      rw [resume]
      split
      · rename_i hw
        exact .resume ⟨i, hi⟩ hpc hw
      · rename_i hw
        exact .skip ⟨i, hi⟩ hpc hw
    · rename_i hi
      obtain rfl := Option.some.inj hstep
      exact .resumed hpc (Nat.le_of_not_lt hi)
  · rename_i hpc
    obtain rfl := Option.some.inj hstep
    exact .sleep hpc
  · cases hstep
  · rename_i i hpc
    split at hstep
    · rename_i hi
      obtain rfl := Option.some.inj hstep
      exact .post ⟨i, hi⟩ hpc
    · rename_i hi
      obtain rfl := Option.some.inj hstep
      exact .posted hpc (Nat.le_of_not_lt hi)
  · rename_i i hpc
    split at hstep
    · rename_i hi
      obtain ⟨hw, rfl⟩ := Option.ite_none_right_eq_some.mp hstep |>.imp_right Option.some.inj
      exact .join ⟨i, hi⟩ hpc hw
    · rename_i hi
      obtain rfl := Option.some.inj hstep
      exact .joined hpc (Nat.le_of_not_lt hi)
  · rename_i i hpc
    split at hstep
    · rename_i hi
      obtain rfl := Option.some.inj hstep
      exact .collect ⟨i, hi⟩ hpc
    · rename_i hi
      obtain rfl := Option.some.inj hstep
      exact .collected hpc (Nat.le_of_not_lt hi)

/-- The inversion of `runStep`: `run()` is called, goes on or wakes up. -/
theorem runs_of_runStep {n : ℕ} {s t : State n} {choice : RunChoice}
    (hstep : s.runStep choice = some t) : s.Runs choice t := by
  cases choice with
  | call =>
      obtain ⟨hpc, rfl⟩ := Option.ite_none_right_eq_some.mp hstep |>.imp_right Option.some.inj
      rw [runCall]
      split
      · rename_i hrunning
        exact .guard hpc hrunning
      · rename_i hidle
        exact .enter hpc (Bool.eq_false_iff.mpr hidle)
  | spurious =>
      obtain ⟨hpc, rfl⟩ := Option.ite_none_right_eq_some.mp hstep |>.imp_right Option.some.inj
      exact .spurious hpc
  | go => exact runs_of_runGo hstep

end State

/-- The service with `n` workers as a machine. -/
def service (n : ℕ) : Machine (State n) (Label n) where
  init := State.init n
  step := State.step

end Netknot.Win32
