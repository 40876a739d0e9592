import Netknot.Win32.AsyncTask
import Netknot.Win32.LastError

/-!
# Submitting an Asynchronous Operation

One call of `Win32Socket::readAsync`, `writeAsync` or `acceptAsync`, cut at the program
points another thread can observe. The three functions run the same steps; they differ in

* the owner that holds the task while the call runs — `readAsync` an `RcObjectPtr`, which
  counts, the other two a `std::unique_ptr` with `AsyncTaskDeleter`, which does not and
  runs `onRefZero` when it is left holding the task;
* the error codes after which the operation counts as accepted — `writeAsync` does not
  look for `WSA_IO_PENDING`;
* the socket `acceptAsync` creates before the kernel call.

`Call` is the state of one call and of the heap objects it made. Its functions are the
steps of the call and the steps the kernel and a worker take on its task. The choices of
the environment (does an allocation succeed, what does the kernel answer) are arguments.

Beside what the code reads, `Call` records a **history** no step reads: where the
completion packet is, whether the task is in `currentTasks`, how often the callback was
invoked, at which exit the call failed, and whether the submitting thread touched a task
that had already been destroyed or dropped a reference from zero (`fault`).
-/

namespace Netknot.Win32

/-- What `WSARecv`, `WSASend` or `AcceptEx` answers: success, or `SOCKET_ERROR` (`FALSE`)
with the code `WSAGetLastError` then gives. -/
inductive KernelResult
  | success
  | error (code : ℕ)
  deriving DecidableEq, Repr

/-- The program points of a submit call. -/
inductive SubmitPc
  /-- The call has not been made. -/
  | idle
  /-- Before the task is allocated. -/
  | entered
  /-- The task is allocated and owned by the local `task`. -/
  | allocated
  /-- `acceptAsync`: `newSocket` is created. -/
  | socketReady
  /-- The overlapped block and the callback are stored in the task. -/
  | prepared
  /-- The kernel call answered. -/
  | issued (result : KernelResult)
  /-- The operation counts as accepted; before `postAsyncTask`. -/
  | accepted
  /-- `postAsyncTask` returned an exception; before the local `task` goes out of scope. -/
  | unwinding
  /-- The local `task` is gone; before the exception of `postAsyncTask` is returned. -/
  | unwound
  /-- The task is in `currentTasks`; before `task->incRef(0)`. -/
  | posted
  /-- Before `asyncTaskOut` is assigned. -/
  | shared
  /-- Before the local `task` goes out of scope. -/
  | leaving
  /-- The call returned this. -/
  | returned (result : ExceptionPointer)
  deriving DecidableEq, Repr

/-- The exits at which a submit call fails. -/
inductive FailPoint
  | bufferSize
  | allocTask
  | createSocket
  | allocOverlapped
  | kernelCall
  | postAsyncTask
  deriving DecidableEq, Repr

/-- The program points of `_workerThreadProc` while it has the packet of an operation
in hand. -/
inductive Stage
  /-- Before `rawTask` is built. -/
  | dequeued
  /-- `rawTask` holds a reference; before `currentTasks.contains`. -/
  | locked
  /-- The task was found and removed; before `rawTask->decRef(0)`. -/
  | removed
  /-- The mutex is released; before the local `task` is built. -/
  | unlocked
  /-- The transferred size is added; before the status is stored. -/
  | counted
  /-- The status is stored; before the callback is invoked. -/
  | marked
  /-- The callback is running. -/
  | callback
  /-- The callback is in `stop()`, past the guard; before `_isRunning = false`. -/
  | stopStore
  /-- The callback is in `stop()`; before `WakeAllConditionVariable`. -/
  | stopWake
  /-- The callback's exception is stored; before `WakeAllConditionVariable`. -/
  | failing
  /-- Before the local `task` goes out of scope; `exits` on the way out of the thread. -/
  | dropTask (exits : Bool)
  /-- Before `rawTask` goes out of scope; `hit` when the task was found. -/
  | dropRaw (exits hit : Bool)
  deriving DecidableEq, Repr

/-- Where the completion packet of an operation is. -/
inductive PacketPhase
  /-- There is none: the kernel has not accepted the operation. -/
  | notIssued
  /-- The operation is pending in the kernel. -/
  | pending
  /-- A success packet is in the queue of the completion port. -/
  | queued
  /-- A failure packet is in the queue. -/
  | queuedFailed
  /-- A worker has the success packet in hand. -/
  | held (stage : Stage)
  /-- A worker found the task and is done with it. -/
  | delivered
  /-- A worker did not find the task in `currentTasks` and dropped the packet. -/
  | discarded
  /-- A worker took the failure packet. -/
  | failed
  deriving DecidableEq, Repr

/-- Why the process ended in `std::terminate`. -/
inductive Abort
  /-- `stop()` found `_isRunning` false. -/
  | stopGuard
  /-- `run()` found `_isRunning` true. -/
  | runGuard
  /-- `wsaLastErrorToExcept` was given a code it does not list. -/
  | unlistedError (code : ℕ)
  /-- `createSocket` got no socket, or could not associate it with the port. -/
  | createSocket
  deriving DecidableEq, Repr

/-- One submit call, the task it made and the socket `acceptAsync` creates. -/
structure Call where
  /-- Which of the three functions was called. -/
  kind : AsyncTaskType := .read
  pc : SubmitPc := .idle
  task : AsyncTask := {}
  /-- `acceptAsync`: `createSocket` handed over a socket. -/
  socketCreated : Bool := false
  /-- The local `newSocket` owns it. -/
  socketOwned : Bool := false
  /-- The kernel holds the operation: its buffers and its overlapped block are in use. -/
  kernelPending : Bool := false
  /-- `asyncTaskOut` was assigned. -/
  asyncTaskOut : Bool := false
  /-- The caller has the reference that came with `asyncTaskOut`. -/
  callerRef : Bool := false
  /-- History: the caller dropped that reference. -/
  released : Bool := false
  /-- History: how often the new socket was disposed of. -/
  socketDisposed : ℕ := 0
  /-- History: where the completion packet is. -/
  packet : PacketPhase := .notIssued
  /-- History: the task is in `currentTasks`. -/
  registered : Bool := false
  /-- History: how often the callback was invoked. -/
  callbacks : ℕ := 0
  /-- History: the exit at which the call failed. -/
  failPoint : Option FailPoint := none
  /-- History: the submitting thread touched a destroyed task, or dropped a reference from
  a count of zero. -/
  fault : Bool := false
  deriving DecidableEq, Repr

/-- What a step of a submit call does to the service beside changing the call. -/
inductive Answer
  /-- Nothing. -/
  | next (c : Call)
  /-- The task is inserted in `currentTasks`. -/
  | registers (c : Call)
  /-- The process ends. -/
  | aborts (reason : Abort)
  deriving DecidableEq, Repr

/-- The choices of the environment of a submit call. -/
inductive SubmitChoice
  /-- A thread makes the call; `tooBig` when `buffer.buffer->size > ULONG_MAX`. -/
  | call (kind : AsyncTaskType) (tooBig : Bool)
  /-- The allocation at the current program point succeeds or fails. -/
  | alloc (ok : Bool)
  /-- `createSocket` cannot get or associate a socket. -/
  | socketFails
  /-- The kernel call answers. -/
  | issue (result : KernelResult)
  /-- The next step, where there is nothing to choose. -/
  | go
  /-- The caller drops the reference it got with `asyncTaskOut`. -/
  | release
  deriving DecidableEq, Repr

namespace Call

/-- The submitting thread does `f` to the task it made. -/
def touch (c : Call) (f : AsyncTask → AsyncTask) : Call :=
  { c with
    task := f c.task
    fault := c.fault || decide (0 < c.task.destroyed) ||
      decide (c.task.decRefAtZero < (f c.task).decRefAtZero) }

/-- The local `task` goes out of scope still owning the object: the `RcObjectPtr` of
`readAsync` drops a reference, the `unique_ptr` of the other two calls
`AsyncTaskDeleter`, which is `onRefZero`. -/
def dropOwner (c : Call) : Call :=
  if c.task.allocated then
    c.touch (if c.kind = .read then AsyncTask.decRef else AsyncTask.onRefZero)
  else c

/-- The local `newSocket` goes out of scope: `dealloc` closes a socket it still owns. -/
def dropSocket (c : Call) : Call :=
  if c.socketOwned then
    { c with socketOwned := false, socketDisposed := c.socketDisposed + 1 }
  else c

/-- The locals go out of scope, in reverse order. -/
def leaveScope (c : Call) : Call := c.dropSocket.dropOwner

/-- A failing exit at which no other thread knows the task: the locals go out of scope and `e`
is returned. -/
def fail (c : Call) (e : ExceptionPointer) (p : FailPoint) : Call :=
  { c.leaveScope with pc := .returned e, failPoint := some p }

/-- The entry of the call: `readAsync` and `writeAsync` refuse a buffer longer than
`ULONG_MAX`. -/
def enter (c : Call) (kind : AsyncTaskType) (tooBig : Bool) : Call :=
  if tooBig ∧ kind ≠ .accept then
    { c with kind := kind }.fail (some .bufferIsTooBig) .bufferSize
  else { c with kind := kind, pc := .entered }

/-- `allocAndConstruct` of the task. The constructor copies the buffer reference; the
`RcObjectPtr` of `readAsync` counts the object. -/
def allocTask (c : Call) (ok : Bool) : Call :=
  if ok then
    let t : AsyncTask :=
      { allocated := true
        buffered := c.kind ≠ .accept
        bufferRefs := if c.kind ≠ .accept then 1 else 0 }
    { c with task := if c.kind = .read then t.incRef else t, pc := .allocated }
  else c.fail (some .outOfMemory) .allocTask

/-- `ioService->createSocket` of `acceptAsync`. -/
def createSocket (c : Call) (ok : Bool) : Call :=
  if ok then { c with socketCreated := true, socketOwned := true, pc := .socketReady }
  else c.fail (some .outOfMemory) .createSocket

/-- `allocOverlapped`, and the two assignments after it: the block counts the buffer and
the task; the task gets the block and the callback. No other thread knows the task yet. -/
def allocOverlapped (c : Call) (ok : Bool) : Call :=
  if ok then
    { c.touch fun t =>
        { t.incRef with
          bufferRefs := t.bufferRefs + if t.buffered then 1 else 0
          hasOverlapped := true
          hasCallback := true
          callbackRefs := t.callbackRefs + 1 } with
      pc := .prepared }
  else c.fail (some .outOfMemory) .allocOverlapped

/-- Whether the kernel holds an operation it answered so. -/
def kernelAccepts : KernelResult → Bool
  | .success => true
  | .error code => code = WSA_IO_PENDING

/-- The kernel call answers. From here on the kernel may complete an operation it
accepted, whatever the submitting thread does next. -/
def issue (c : Call) (result : KernelResult) : Call :=
  if kernelAccepts result then
    { c with pc := .issued result, kernelPending := true, packet := .pending }
  else { c with pc := .issued result }

/-- Whether the code counts the operation as accepted: `readAsync` and `acceptAsync` let
`WSA_IO_PENDING` pass, `writeAsync` takes every `SOCKET_ERROR` for a failure. -/
def countsAsAccepted (kind : AsyncTaskType) : KernelResult → Bool
  | .success => true
  | .error code => kind ≠ .write && code = WSA_IO_PENDING

/-- The test of the answer. `acceptAsync` releases `newSocket` to the task here;
otherwise the code is translated, with the outcome of allocating the `NetworkError`. -/
def checkResult (c : Call) (allocated : Bool) (result : KernelResult) : Answer :=
  if countsAsAccepted c.kind result then
    .next { c with socketOwned := false, pc := .accepted }
  else
    match result with
    | .success => .next c
    | .error code =>
        match wsaLastErrorToExcept allocated code with
        | none => .aborts (.unlistedError code)
        | some e => .next (c.fail e .kernelCall)

/-- `postAsyncTask`: the `RcObjectPtr` in `currentTasks` counts the task. When the insert
finds no memory the `RcObjectPtr` built for it is dropped again, and an exception is returned. -/
def postAsyncTask (c : Call) (ok : Bool) : Answer :=
  if ok then .registers { c.touch AsyncTask.incRef with pc := .posted, registered := true }
  else .next { c with pc := .unwinding }

/-- The failing exit behind `postAsyncTask`, up to the return. A worker may have the packet of
the operation in hand, and drop its references before, or between this and the return. -/
def unwind (c : Call) : Call := { c.leaveScope with pc := .unwound }

/-- The exception of `postAsyncTask` is returned. -/
def giveUp (c : Call) : Call :=
  { c with pc := .returned (some .outOfMemory), failPoint := some .postAsyncTask }

/-- `task->incRef(0)`: the caller's reference. -/
def share (c : Call) : Call :=
  { c.touch AsyncTask.incRef with pc := .shared, callerRef := true }

/-- `asyncTaskOut` is assigned; the `unique_ptr` of `writeAsync` and `acceptAsync` gives
the task up. -/
def assignOut (c : Call) : Call := { c with pc := .leaving, asyncTaskOut := true }

/-- The return: the `RcObjectPtr` of `readAsync` drops its reference. -/
def leave (c : Call) : Call :=
  { (if c.kind = .read then c.touch AsyncTask.decRef else c) with pc := .returned none }

/-- One step of the call, or of its caller after it returned. -/
def submit (c : Call) : SubmitChoice → Option Answer
  | .call kind tooBig =>
      if c.pc = .idle then some (.next (c.enter kind tooBig)) else none
  | .alloc ok =>
      match c.pc with
      | .entered => some (.next (c.allocTask ok))
      | .allocated =>
          if c.kind = .accept then some (.next (c.createSocket ok))
          else some (.next (c.allocOverlapped ok))
      | .socketReady => some (.next (c.allocOverlapped ok))
      | .issued result => some (c.checkResult ok result)
      | .accepted => some (c.postAsyncTask ok)
      | _ => none
  | .socketFails =>
      if c.pc = .allocated ∧ c.kind = .accept then some (.aborts .createSocket) else none
  | .issue result => if c.pc = .prepared then some (.next (c.issue result)) else none
  | .go =>
      match c.pc with
      | .unwinding => some (.next c.unwind)
      | .unwound => some (.next c.giveUp)
      | .posted => some (.next c.share)
      | .shared => some (.next c.assignOut)
      | .leaving => some (.next c.leave)
      | _ => none
  | .release =>
      if c.pc = .returned none ∧ c.callerRef = true then
        some (.next { c with task := c.task.decRef, callerRef := false, released := true })
      else none

/-! ### What the kernel and a worker do to the operation -/

/-- The kernel completes the operation and queues its packet. -/
def complete (c : Call) : Call := { c with kernelPending := false, packet := .queued }

/-- The kernel fails the operation and queues its packet. -/
def completeFailed (c : Call) : Call :=
  { c with kernelPending := false, packet := .queuedFailed }

/-- A worker moves on without touching the task. -/
def atStage (c : Call) (stage : Stage) : Call := { c with packet := .held stage }

/-- A worker takes the failure packet. -/
def takeFailed (c : Call) : Call := { c with packet := .failed }

/-- `RcObjectPtr<AsyncTask> rawTask = iocpOverlapped->asyncTask`. -/
def holdRaw (c : Call) : Call :=
  { c with task := c.task.incRef, packet := .held .locked }

/-- `currentTasks.remove`: the reference of the set goes. -/
def remove (c : Call) : Call :=
  { c with task := c.task.decRef, registered := false, packet := .held .removed }

/-- `rawTask->decRef(0)`, which drops the reference of the overlapped block. -/
def dropOverlappedRef (c : Call) : Call :=
  { c with task := c.task.decRef, packet := .held .unlocked }

/-- The local `task` is built, and the transferred size is added. -/
def addTransferred (c : Call) (szTransferred : ℕ) : Call :=
  { c with
    task :=
      { c.task.incRef with
        szOperated := if c.kind = .accept then c.task.szOperated
          else c.task.szOperated + szTransferred }
    packet := .held .counted }

/-- `task->status = AsyncTaskStatus::Done`. -/
def setDone (c : Call) : Call :=
  { c with task := { c.task with status := .done }, packet := .held .marked }

/-- The callback is invoked. -/
def invoke (c : Call) : Call := { c with callbacks := c.callbacks + 1, packet := .held .callback }

/-- The local `task` goes out of scope. -/
def dropTask (c : Call) (exits : Bool) : Call :=
  { c with task := c.task.decRef, packet := .held (.dropRaw exits true) }

/-- `rawTask` goes out of scope. -/
def dropRaw (c : Call) (hit : Bool) : Call :=
  { c with task := c.task.decRef, packet := if hit then .delivered else .discarded }

end Call

end Netknot.Win32
