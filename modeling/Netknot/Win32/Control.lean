import Netknot.Win32.Projection

/-!
# The Control Part of the Service

What the threads of the service tell each other besides completion packets: where `run()`
and the workers are, the exceptions the workers stored, and the flag `_isRunning`.
`State.Turns` says all a step can do to this part; every invariant of `run()` and `stop()`
is derived from it.

## Main results

* `turns_of_step`: the inversion of a step.
* `service_ordered`: in every reachable state the workers are active only between the
  first `ResumeThread` and the end of the join, and the flag is what `run()` and the
  `stop()` calls of this run made it.
* `left_of_run`: a thread that has left the loop of `_workerThreadProc` never comes back.
-/

namespace Netknot.Win32

/-- The worker executes `_workerThreadProc`. -/
def WorkerPc.active : WorkerPc → Bool
  | .waiting | .handling _ _ _ | .returning => true
  | .suspended | .exited => false

/-- The worker has left the loop of `_workerThreadProc`. -/
def WorkerPc.left : WorkerPc → Bool
  | .returning | .exited => true
  | _ => false

/-- `run()` has set `_isRunning` and not yet joined its workers: the points at which
workers can be active. -/
def RunPc.serving : RunPc → Bool
  | .resuming _ | .beforeSleep | .asleep | .posting _ | .joining _ => true
  | _ => false

/-- `run()` has not come to `SleepConditionVariableCS` yet, but workers can be active. -/
def RunPc.beforeWait : RunPc → Bool
  | .resuming _ | .beforeSleep => true
  | _ => false

/-- `run()` has started and not been woken yet. -/
def RunPc.unwoken : RunPc → Bool
  | .resuming _ | .beforeSleep | .asleep => true
  | _ => false

/-- `run()` is at or before `_isRunning = true`. -/
def RunPc.entering : RunPc → Bool
  | .scanning _ | .starting => true
  | _ => false

/-- Where `WakeAllConditionVariable` leaves `run()`. -/
def RunPc.woken (p : RunPc) : RunPc :=
  if p = .asleep then .posting 0 else p

namespace State

/-- The flag and the history of the current run. -/
def flags {n : ℕ} (s : State n) : Bool × Bool × Bool :=
  (s.isRunning, s.stopStored, s.stopDone)

end State

/-- **What `run()` does on its own**: it reads the workers, and only its program point moves. -/
inductive RunPc.Advances {n : ℕ} (workers : Fin n → Worker) : RunPc → RunPc → Prop
  | scan (i : Fin n) : (workers i).exceptionStorage = none →
      Advances workers (.scanning i) (.scanning (i + 1))
  | scanned {i : ℕ} : n ≤ i → Advances workers (.scanning i) .starting
  | skip (i : Fin n) : (workers i).pc ≠ .suspended →
      Advances workers (.resuming i) (.resuming (i + 1))
  | resumed {i : ℕ} : n ≤ i → Advances workers (.resuming i) .beforeSleep
  | sleep : Advances workers .beforeSleep .asleep
  | spurious : Advances workers .asleep (.posting 0)
  | post (i : Fin n) : Advances workers (.posting i) (.posting (i + 1))
  | posted {i : ℕ} : n ≤ i → Advances workers (.posting i) (.joining 0)
  | join (i : Fin n) : (workers i).pc = .exited →
      Advances workers (.joining i) (.joining (i + 1))
  | joined {i : ℕ} : n ≤ i → Advances workers (.joining i) (.collecting 0)
  | collect (i : Fin n) : (workers i).exceptionStorage = none →
      Advances workers (.collecting i) (.collecting (i + 1))
  | collected {i : ℕ} : n ≤ i → Advances workers (.collecting i) .outside

/-- **What a worker does to itself** without signalling to `run()`. -/
inductive Worker.Proceeds : WorkerChoice → Worker → Worker → Prop
  /-- It takes the packet of an operation. -/
  | take {v : Worker} (o : OpId) (sz : ℕ) : v.pc = .waiting →
      Proceeds .go v { v with pc := .handling o sz .dequeued }
  /-- It takes a packet `run()` posted. -/
  | leave {v : Worker} : v.pc = .waiting → Proceeds .go v { v with pc := .exited }
  /-- `GetQueuedCompletionStatus` returns `FALSE`. -/
  | fails {v : Worker} (choice : WorkerChoice) (e : ExceptionPointer) : v.pc = .waiting →
      Proceeds choice v { pc := .returning, exceptionStorage := e }
  /-- It returns the error code. -/
  | returns {v : Worker} : v.pc = .returning → Proceeds .go v { v with pc := .exited }
  /-- It goes on with the packet in hand. -/
  | handle {v : Worker} {o : OpId} {sz : ℕ} {stage stage' : Stage} (choice : WorkerChoice) :
      v.pc = .handling o sz stage → stage ≠ .failing → stage' ≠ .failing →
      Proceeds choice v { v with pc := .handling o sz stage' }
  /-- The callback returns. -/
  | ret {v : Worker} {o : OpId} {sz : ℕ} (e : ExceptionPointer) :
      v.pc = .handling o sz .callback →
      Proceeds (.ret e) v
        { pc := .handling o sz (if e.isSome then .failing else .dropTask false),
          exceptionStorage := e }
  /-- It is done with the packet. -/
  | finish {v : Worker} {o : OpId} {sz : ℕ} {exits hit : Bool} :
      v.pc = .handling o sz (.dropRaw exits hit) →
      Proceeds .go v { v with pc := if exits then .exited else .waiting }

/-- **What a step can do to the control part.** -/
inductive State.Turns {n : ℕ} (s : State n) : Label n → State n → Prop
  /-- Nothing. -/
  | quiet {l : Label n} {t : State n} (hworkers : t.workers = s.workers)
      (hrun : t.runPc = s.runPc) (hflags : t.flags = s.flags) : Turns s l t
  /-- A thread calls `run()`. -/
  | enter {l : Label n} {t : State n} (hpc : s.runPc = .outside)
      (hworkers : t.workers = s.workers) (hrun : t.runPc = .scanning 0)
      (hflags : t.flags = (s.isRunning, false, false)) : Turns s l t
  /-- `run()` returns the exception thread `i` stored. -/
  | throw {l : Label n} {t : State n} (i : Fin n)
      (hworkers : t.workers =
        Function.update s.workers i { s.workers i with exceptionStorage := none })
      (hrun : t.runPc = .outside) (hflags : t.flags = s.flags)
      (hpc : s.runPc.serving = false) : Turns s l t
  /-- `_isRunning = true`. -/
  | start {l : Label n} {t : State n} (hpc : s.runPc = .starting)
      (hworkers : t.workers = s.workers) (hrun : t.runPc = .resuming 0)
      (hflags : t.flags = (true, s.stopStored, s.stopDone)) : Turns s l t
  /-- `ResumeThread` of a suspended thread. -/
  | resume {l : Label n} {t : State n} (i : Fin n) (hpc : s.runPc = .resuming i)
      (hw : (s.workers i).pc = .suspended)
      (hworkers : t.workers = Function.update s.workers i { s.workers i with pc := .waiting })
      (hrun : t.runPc = .resuming (i + 1)) (hflags : t.flags = s.flags) : Turns s l t
  /-- Any other step of `run()`. -/
  | advance {l : Label n} {t : State n} {p : RunPc} (hpc : s.runPc = p)
      (hrun : p.Advances s.workers t.runPc) (hworkers : t.workers = s.workers)
      (hflags : t.flags = s.flags) : Turns s l t
  /-- A worker moves without a signal to `run()`. -/
  | proceed {t : State n} (w : Fin n) {choice : WorkerChoice} {v : Worker}
      (hw : (s.workers w).Proceeds choice v)
      (hworkers : t.workers = Function.update s.workers w v)
      (hrun : t.runPc = s.runPc) (hflags : t.flags = s.flags) :
      Turns s (.worker w choice) t
  /-- `stop()` executes `_isRunning = false`. -/
  | stopStore {t : State n} (w : Fin n) {o : OpId} {sz : ℕ}
      (hw : (s.workers w).pc = .handling o sz .stopStore)
      (hworkers : t.workers =
        Function.update s.workers w { s.workers w with pc := .handling o sz .stopWake })
      (hrun : t.runPc = s.runPc) (hflags : t.flags = (false, true, s.stopDone)) :
      Turns s (.worker w .go) t
  /-- `stop()` executes `WakeAllConditionVariable` and returns. -/
  | stopWake {t : State n} (w : Fin n) {o : OpId} {sz : ℕ}
      (hw : (s.workers w).pc = .handling o sz .stopWake)
      (hworkers : t.workers =
        Function.update s.workers w { s.workers w with pc := .handling o sz .callback })
      (hrun : t.runPc = s.runPc.woken) (hflags : t.flags = (s.isRunning, s.stopStored, true)) :
      Turns s (.worker w .go) t
  /-- A worker whose callback failed executes `WakeAllConditionVariable`. -/
  | failWake {t : State n} (w : Fin n) {o : OpId} {sz : ℕ}
      (hw : (s.workers w).pc = .handling o sz .failing)
      (hworkers : t.workers =
        Function.update s.workers w { s.workers w with pc := .handling o sz (.dropTask true) })
      (hrun : t.runPc = s.runPc.woken) (hflags : t.flags = s.flags) :
      Turns s (.worker w .go) t

/-- What holds of every worker still does when one of them is replaced. -/
theorem State.forall_workers_update {n : ℕ} {s t : State n} {w : Fin n} {v : Worker}
    {P : Fin n → Worker → Prop} (hall : ∀ w, P w (s.workers w))
    (hworkers : t.workers = Function.update s.workers w v) (hv : P w v) (w' : Fin n) :
    P w' (t.workers w') := by
  rw [hworkers]
  exact (Function.forall_update_iff s.workers P).mpr ⟨hv, fun w' _ => hall w'⟩ w'

/-- **What a step can make of one worker.** -/
inductive Worker.Turned (v : Worker) : Worker → Prop
  | same : Turned v v
  /-- `run()` takes its exception. -/
  | taken : Turned v { v with exceptionStorage := none }
  /-- `ResumeThread`. -/
  | resumed (hpc : v.pc = .suspended) : Turned v { v with pc := .waiting }
  /-- It moves. -/
  | proceeds {choice : WorkerChoice} {v' : Worker} (h : v.Proceeds choice v') : Turned v v'
  /-- It moves with a signal to `run()`. -/
  | signals {o : OpId} {sz : ℕ} {stage stage' : Stage} (hpc : v.pc = .handling o sz stage) :
      Turned v { v with pc := .handling o sz stage' }

/-- Each worker moves, is started or signalled, or stays, in every step. -/
theorem State.Turns.worker {n : ℕ} {s t : State n} {l : Label n} (hturn : s.Turns l t)
    (w : Fin n) : (s.workers w).Turned (t.workers w) := by
  have hupdate : ∀ {i : Fin n} {v : Worker}, t.workers = Function.update s.workers i v →
      (s.workers i).Turned v → (s.workers w).Turned (t.workers w) := fun hworkers hv =>
    forall_workers_update (P := fun w v => (s.workers w).Turned v) (fun _ => .same) hworkers hv w
  cases hturn with
  | quiet hworkers hrun hflags | enter hpc hworkers hrun hflags | start hpc hworkers hrun hflags
  | advance hpc hadv hworkers hflags =>
      rw [hworkers]
      exact .same
  | throw i hworkers hrun hflags hpc => exact hupdate hworkers .taken
  | resume i hpc hw hworkers hrun hflags => exact hupdate hworkers (.resumed hw)
  | proceed w' hw hworkers hrun hflags => exact hupdate hworkers (.proceeds hw)
  | stopStore w' hw hworkers hrun hflags | stopWake w' hw hworkers hrun hflags
  | failWake w' hw hworkers hrun hflags => exact hupdate hworkers (.signals hw)

namespace State

/-! ### The inversion of a step -/

@[simp] theorem wakeAll_runPc {n : ℕ} (s : State n) : s.wakeAll.runPc = s.runPc.woken := by
  unfold wakeAll RunPc.woken
  split <;> rfl

@[simp] theorem wakeAll_flags {n : ℕ} (s : State n) : s.wakeAll.flags = s.flags := by
  rw [wakeAll]
  split <;> rfl

/-- A step of a submit call does nothing to the control part. -/
theorem turns_submit {n : ℕ} {s t : State n} {o : OpId} {choice : SubmitChoice} {l : Label n}
    (hstep : s.submitStep o choice = some t) : s.Turns l t := by
  obtain ⟨a, -, rfl⟩ := Option.map_eq_some_iff.mp hstep
  cases a <;> exact .quiet rfl rfl rfl

/-- **A failed `GetQueuedCompletionStatus`** ends the process or sends the worker on its
way out. -/
theorem turns_portError {n : ℕ} {s s' : State n} {w : Fin n} {choice : WorkerChoice}
    (code : ℕ) (allocated : Bool) (hw : (s.workers w).pc = .waiting)
    (hworkers : s'.workers = s.workers) (hrun : s'.runPc = s.runPc)
    (hflags : s'.flags = s.flags) :
    s.Turns (.worker w choice) (s'.portError w code allocated) := by
  rw [portError]
  split
  · exact .quiet hworkers hrun hflags
  · rename_i e _
    refine .proceed w (.fails choice e hw) ?_ hrun hflags
    rw [← hworkers]
    rfl

/-- **A step of a worker at the head of its loop** is a turn of the control part. -/
theorem turns_waiting {n : ℕ} {s t : State n} {w : Fin n} {choice : WorkerChoice}
    (hw : (s.workers w).pc = .waiting) (hstep : s.waitingStep w choice = some t) :
    s.Turns (.worker w choice) t := by
  cases takes_of_waitingStep hstep with
  | zero hqueue => exact .proceed w (.leave hw) rfl rfl rfl
  | op hqueue => exact .proceed w (.take _ _ hw) rfl rfl rfl
  | opFailed hqueue allocated => exact turns_portError _ _ hw rfl rfl rfl
  | portFailed code allocated => exact turns_portError _ _ hw rfl rfl rfl

/-- **A step of a worker with a packet in hand** is a turn of the control part. -/
theorem turns_handling {n : ℕ} {s t : State n} {w : Fin n} {o : OpId} {sz : ℕ} {stage : Stage}
    {choice : WorkerChoice} (hw : (s.workers w).pc = .handling o sz stage)
    (hstep : s.handlingStep w o sz stage choice = some t) :
    s.Turns (.worker w choice) t := by
  cases handles_of_handlingStep hstep with
  | hold | dropRef | addTransferred | setDone | invoke =>
      exact .proceed w (.handle _ hw (by decide) (by decide)) rfl rfl rfl
  | lookup =>
      unfold lookup
      split
      · exact .proceed w (.handle _ hw (by decide) (by decide)) rfl rfl rfl
      · exact .proceed w (.handle _ hw (by decide) (by decide)) rfl rfl rfl
  | stop =>
      unfold stopGuard
      split
      · exact .proceed w (.handle _ hw (by decide) (by decide)) rfl rfl rfl
      · exact .quiet rfl rfl rfl
  | stopStore => exact .stopStore w hw rfl rfl rfl
  | stopWake =>
      refine .stopWake w hw ?_ ?_ ?_
      · simp [advance, setPc, setWorker, setCall]
      · simp [advance, setPc, setWorker, setCall]
      · have hflags := s.wakeAll_flags
        simp only [flags, Prod.mk.injEq] at hflags
        simp [advance, setPc, setWorker, setCall, flags, hflags]
  | ret e => exact .proceed w (.ret e hw) rfl rfl rfl
  | fail =>
      refine .failWake w hw ?_ ?_ ?_
      · simp [advance, setPc, setWorker, setCall]
      · simp [advance, setPc, setWorker, setCall]
      · exact s.wakeAll_flags
  | dropTask exits => exact .proceed w (.handle _ hw (by simp) (by simp)) rfl rfl rfl
  | dropRaw exits hit => exact .proceed w (.finish hw) rfl rfl rfl

/-- **A step of a worker** is a turn of the control part. -/
theorem turns_worker {n : ℕ} {s t : State n} {w : Fin n} {choice : WorkerChoice}
    (hstep : s.workerStep w choice = some t) : s.Turns (.worker w choice) t := by
  rw [workerStep] at hstep
  split at hstep
  · rename_i hw
    exact turns_waiting hw hstep
  · rename_i hw
    exact turns_handling hw hstep
  · rename_i hw
    obtain ⟨rfl, rfl⟩ := Option.ite_none_right_eq_some.mp hstep |>.imp_right Option.some.inj
    exact .proceed w (.returns hw) rfl rfl rfl
  · cases hstep
  · cases hstep

/-- An exit of a loop over `exceptionStorage`, or its next turn, is a turn of the control part. -/
theorem turns_takeException {n : ℕ} {s : State n} {l : Label n} {p : RunPc} (i : Fin n)
    (next : RunPc) (hpc : s.runPc = p) (hserving : p.serving = false)
    (hnext : (s.workers i).exceptionStorage = none → p.Advances s.workers next) :
    s.Turns l (s.takeException i next) := by
  rw [takeException]
  split
  · rename_i hnone
    exact .advance hpc (hnext hnone) rfl rfl
  · exact .throw i rfl rfl rfl (hpc ▸ hserving)

/-- **A step of `run()`** is a turn of the control part. -/
theorem turns_run {n : ℕ} {s t : State n} {choice : RunChoice} {l : Label n}
    (hstep : s.runStep choice = some t) : s.Turns l t := by
  cases runs_of_runStep hstep with
  | guard hpc hrunning => exact .quiet rfl rfl rfl
  | enter hpc hidle => exact .enter hpc rfl rfl rfl
  | spurious hpc => exact .advance hpc .spurious rfl rfl
  | scan i hpc => exact turns_takeException i _ hpc rfl (.scan i)
  | scanned hpc hall => exact .advance hpc (.scanned hall) rfl rfl
  | start hpc => exact .start hpc rfl rfl rfl
  | resume i hpc hw => exact .resume i hpc hw rfl rfl rfl
  | skip i hpc hw => exact .advance hpc (.skip i hw) rfl rfl
  | resumed hpc hall => exact .advance hpc (.resumed hall) rfl rfl
  | sleep hpc => exact .advance hpc .sleep rfl rfl
  | post i hpc => exact .advance hpc (.post i) rfl rfl
  | posted hpc hall => exact .advance hpc (.posted hall) rfl rfl
  | join i hpc hw => exact .advance hpc (.join i hw) rfl rfl
  | joined hpc hall => exact .advance hpc (.joined hall) rfl rfl
  | collect i hpc => exact turns_takeException i _ hpc rfl (.collect i)
  | collected hpc hall => exact .advance hpc (.collected hall) rfl rfl

/-- A step was taken by a process that runs. -/
theorem aborted_of_step {n : ℕ} {s t : State n} {l : Label n} (hstep : s.step l = some t) :
    s.aborted = none := by
  unfold step at hstep
  split at hstep
  · cases hstep
  · simpa using ‹¬s.aborted.isSome = true›

/-- **A step of the service** is a turn of the control part. -/
theorem turns_of_step {n : ℕ} {s t : State n} {l : Label n} (hstep : s.step l = some t) :
    s.Turns l t := by
  unfold step at hstep
  split at hstep
  · cases hstep
  · cases l with
    | submit o choice => exact turns_submit hstep
    | complete o sz =>
        obtain ⟨-, rfl⟩ := Option.ite_none_right_eq_some.mp hstep |>.imp_right Option.some.inj
        exact .quiet rfl rfl rfl
    | completeFailed o code =>
        obtain ⟨-, rfl⟩ := Option.ite_none_right_eq_some.mp hstep |>.imp_right Option.some.inj
        exact .quiet rfl rfl rfl
    | worker w choice => exact turns_worker hstep
    | run choice => exact turns_run hstep

/-! ### The order of `run()` and its workers -/

/-- **The order of a run**: what the program point of `run()` says about the workers, the
stored exceptions and the flag. -/
structure Ordered {n : ℕ} (s : State n) : Prop where
  active : ∀ w, (s.workers w).pc.active = true → s.runPc.serving = true
  joined : ∀ i, s.runPc = .joining i → ∀ w : Fin n, w < i → (s.workers w).pc = .exited
  scanned : ∀ i, s.runPc = .scanning i → ∀ w : Fin n, w < i →
    (s.workers w).exceptionStorage = none
  starting : s.runPc = .starting → ∀ w, (s.workers w).exceptionStorage = none
  entering : s.runPc.entering = true → s.stopStored = false ∧ s.stopDone = false
  flag : s.runPc.serving = true → s.isRunning = !s.stopStored

end State

/-- The workers are joined before `run()` stops serving. -/
theorem RunPc.Advances.serving {n : ℕ} {workers : Fin n → Worker} {p q : RunPc}
    (h : p.Advances workers q) :
    q.serving = p.serving ∨ ∃ i, n ≤ i ∧ p = .joining i := by
  cases h with
  | joined hi => exact .inr ⟨_, hi, rfl⟩
  | _ => exact .inl rfl

/-- `run()` enters only when it is called. -/
theorem RunPc.Advances.entering {n : ℕ} {workers : Fin n → Worker} {p q : RunPc}
    (h : p.Advances workers q) (hq : q.entering = true) : p.entering = true := by
  cases h <;> first | rfl | exact absurd hq Bool.false_ne_true

/-- A worker that moves is active before and not suspended after. -/
theorem Worker.Proceeds.active {choice : WorkerChoice} {v v' : Worker}
    (h : v.Proceeds choice v') : v.pc.active = true := by
  cases h with
  | take o sz hw => rw [hw]; rfl
  | leave hw => rw [hw]; rfl
  | fails choice e hw => rw [hw]; rfl
  | returns hw => rw [hw]; rfl
  | handle choice hw hfrom hto => rw [hw]; rfl
  | ret e hw => rw [hw]; rfl
  | finish hw => rw [hw]; rfl

@[simp] theorem RunPc.serving_woken (p : RunPc) : p.woken.serving = p.serving := by
  rw [woken]
  split
  · rename_i h
    rw [h]
    rfl
  · rfl

/-- Only an earlier point of the same loop comes before a point of the join. -/
theorem RunPc.woken_eq_joining {p : RunPc} {i : ℕ} (h : p.woken = .joining i) :
    p = .joining i := by
  rw [woken] at h
  split at h
  · cases h
  · exact h

namespace State

/-- The flags are equal to three values when each of them is. -/
theorem flags_eq_iff {n : ℕ} {s : State n} {a b c : Bool} :
    s.flags = (a, b, c) ↔ s.isRunning = a ∧ s.stopStored = b ∧ s.stopDone = c := by
  simp [flags]

/-- Behind its entry, and where it joins no thread, `run()` asks only that it serves while a
thread is active, and that the flag is right. -/
theorem Ordered.of_entered {n : ℕ} {t : State n}
    (hactive : ∀ w, (t.workers w).pc.active = true → t.runPc.serving = true)
    (hjoining : ∀ i, t.runPc ≠ .joining i) (hentering : t.runPc.entering = false)
    (hflag : t.runPc.serving = true → t.isRunning = !t.stopStored) : t.Ordered := by
  refine ⟨hactive, fun i hi => absurd hi (hjoining i), fun i hi => ?_, fun hp => ?_,
    fun hp => ?_, hflag⟩
  · rw [hi] at hentering
    exact absurd hentering.symm Bool.false_ne_true
  · rw [hp] at hentering
    exact absurd hentering.symm Bool.false_ne_true
  · exact absurd (hentering.symm.trans hp) Bool.false_ne_true

/-- A step of a worker keeps the order when it keeps the flag right and does not end the
service of `run()`. -/
theorem Ordered.of_worker {n : ℕ} {s t : State n} {w : Fin n} {v : Worker} (h : s.Ordered)
    (hw : (s.workers w).pc.active = true)
    (hworkers : t.workers = Function.update s.workers w v)
    (hserving : t.runPc.serving = s.runPc.serving)
    (hjoining : ∀ i, t.runPc = .joining i → s.runPc = .joining i)
    (hflag : s.isRunning = (!s.stopStored) → t.isRunning = !t.stopStored) : t.Ordered := by
  have hs : s.runPc.serving = true := h.active w hw
  have ht : t.runPc.serving = true := hserving.trans hs
  refine ⟨fun _ _ => ht, fun i hi w' hw' => ?_, fun i hi => ?_, fun hp => ?_, fun hp => ?_,
    fun _ => hflag (h.flag hs)⟩
  · have hexited : (s.workers w').pc = .exited := h.joined i (hjoining i hi) w' hw'
    have hne : w' ≠ w := by
      rintro rfl
      rw [hexited] at hw
      exact Bool.false_ne_true hw
    rw [hworkers, Function.update_of_ne hne]
    exact hexited
  · rw [hi] at ht
    exact absurd ht Bool.false_ne_true
  · rw [hp] at ht
    exact absurd ht Bool.false_ne_true
  · cases hpc : t.runPc <;> rw [hpc] at hp ht <;>
      first | exact absurd hp Bool.false_ne_true | exact absurd ht Bool.false_ne_true

/-- **The step lemma of `Ordered`**: every turn keeps it. -/
theorem Ordered.step {n : ℕ} {s t : State n} {l : Label n} (h : s.Ordered)
    (hturn : s.Turns l t) : t.Ordered := by
  cases hturn with
  | quiet hworkers hrun hflags =>
      obtain ⟨hrunning, hstored, hdone⟩ := flags_eq_iff.mp hflags
      refine ⟨?_, ?_, ?_, ?_, ?_, ?_⟩ <;> rw [hrun]
      · rw [hworkers]; exact h.active
      · rw [hworkers]; exact h.joined
      · rw [hworkers]; exact h.scanned
      · rw [hworkers]; exact h.starting
      · rw [hstored, hdone]; exact h.entering
      · rw [hrunning, hstored]; exact h.flag
  | enter hpc hworkers hrun hflags =>
      obtain ⟨-, hstored, hdone⟩ := flags_eq_iff.mp hflags
      refine ⟨fun w hw => ?_, fun i hi => ?_, fun i hi w hw => ?_, fun hp => ?_,
        fun _ => ⟨hstored, hdone⟩, fun hp => ?_⟩
      · rw [hworkers] at hw
        have hs := h.active w hw
        rw [hpc] at hs
        exact absurd hs Bool.false_ne_true
      · rw [hrun] at hi
        cases hi
      · obtain rfl : 0 = i := by simpa [hrun] using hi
        exact absurd hw (Nat.not_lt_zero _)
      · rw [hrun] at hp
        cases hp
      · rw [hrun] at hp
        exact absurd hp Bool.false_ne_true
  | throw i hworkers hrun hflags hpc =>
      refine .of_entered (fun w hw => ?_) (by simp [hrun]) (by rw [hrun]; rfl)
        fun hp => absurd hp (by rw [hrun]; exact Bool.false_ne_true)
      have hpcs : (t.workers w).pc = (s.workers w).pc :=
        forall_workers_update (P := fun w v => v.pc = (s.workers w).pc) (fun _ => rfl) hworkers
          rfl w
      rw [hpcs] at hw
      exact absurd ((h.active w hw).symm.trans hpc) Bool.noConfusion
  | start hpc hworkers hrun hflags =>
      obtain ⟨hrunning, hstored, -⟩ := flags_eq_iff.mp hflags
      have hentering : s.runPc.entering = true := by rw [hpc]; rfl
      refine .of_entered (fun _ _ => by rw [hrun]; rfl) (by simp [hrun]) (by rw [hrun]; rfl)
        fun _ => ?_
      rw [hrunning, hstored, (h.entering hentering).1]
      rfl
  | resume i hpc hw hworkers hrun hflags =>
      obtain ⟨hrunning, hstored, -⟩ := flags_eq_iff.mp hflags
      refine .of_entered (fun _ _ => by rw [hrun]; rfl) (by simp [hrun]) (by rw [hrun]; rfl)
        fun _ => ?_
      rw [hrunning, hstored]
      exact h.flag (by rw [hpc]; rfl)
  | @advance _ _ p hpc hadv hworkers hflags =>
      obtain ⟨hrunning, hstored, hdone⟩ := flags_eq_iff.mp hflags
      refine ⟨fun w hw => ?_, fun i hi w hw => ?_, fun i hi w hw => ?_, fun hp w => ?_,
        fun hp => ?_, fun hp => ?_⟩
      · rw [hworkers] at hw
        have hs : p.serving = true := hpc ▸ h.active w hw
        rcases hadv.serving with hsame | ⟨i, hi, rfl⟩
        · exact hsame.trans hs
        · rw [h.joined i hpc w (Nat.lt_of_lt_of_le w.isLt hi)] at hw
          exact absurd hw Bool.false_ne_true
      · rw [hi] at hadv
        rw [hworkers]
        cases hadv with
        | posted hle => exact absurd hw (Nat.not_lt_zero _)
        | join j hexited =>
            rcases Nat.lt_succ_iff_lt_or_eq.mp hw with hlt | heq
            · exact h.joined j hpc w hlt
            · rw [Fin.ext heq]
              exact hexited
      · rw [hi] at hadv
        rw [hworkers]
        cases hadv with
        | scan j hnone =>
            rcases Nat.lt_succ_iff_lt_or_eq.mp hw with hlt | heq
            · exact h.scanned j hpc w hlt
            · rw [Fin.ext heq]
              exact hnone
      · rw [hp] at hadv
        rw [hworkers]
        cases hadv with
        | scanned hle => exact h.scanned _ hpc w (Nat.lt_of_lt_of_le w.isLt hle)
      · rw [hstored, hdone]
        exact h.entering (hpc ▸ hadv.entering hp)
      · rw [hrunning, hstored]
        refine h.flag ?_
        rcases hadv.serving with hsame | ⟨i, -, rfl⟩
        · rw [hpc, ← hsame]
          exact hp
        · rw [hpc]
          rfl
  | proceed w hw hworkers hrun hflags =>
      obtain ⟨hrunning, hstored, -⟩ := flags_eq_iff.mp hflags
      exact h.of_worker hw.active hworkers (by rw [hrun]) (fun i hi => hrun ▸ hi)
        fun hf => by rw [hrunning, hstored, hf]
  | stopStore w hw hworkers hrun hflags =>
      obtain ⟨hrunning, hstored, -⟩ := flags_eq_iff.mp hflags
      exact h.of_worker (by rw [hw]; rfl) hworkers (by rw [hrun]) (fun i hi => hrun ▸ hi)
        fun _ => by rw [hrunning, hstored]; rfl
  | stopWake w hw hworkers hrun hflags =>
      obtain ⟨hrunning, hstored, -⟩ := flags_eq_iff.mp hflags
      exact h.of_worker (by rw [hw]; rfl) hworkers (by rw [hrun, RunPc.serving_woken])
        (fun i hi => RunPc.woken_eq_joining (hrun ▸ hi))
        fun hf => by rw [hrunning, hstored, hf]
  | failWake w hw hworkers hrun hflags =>
      obtain ⟨hrunning, hstored, -⟩ := flags_eq_iff.mp hflags
      exact h.of_worker (by rw [hw]; rfl) hworkers (by rw [hrun, RunPc.serving_woken])
        (fun i hi => RunPc.woken_eq_joining (hrun ▸ hi))
        fun hf => by rw [hrunning, hstored, hf]

/-- The start state is in order. -/
theorem ordered_init (n : ℕ) : (init n).Ordered where
  active := fun _ hw => absurd hw Bool.false_ne_true
  joined := fun _ hi => by cases hi
  scanned := fun _ hi => by cases hi
  starting := fun hp => by cases hp
  entering := fun hp => absurd hp Bool.false_ne_true
  flag := fun hp => absurd hp Bool.false_ne_true

end State

/-- **In every run** the control part is in order. -/
theorem service_ordered {n : ℕ} {G : State n → Label n → Prop} {s : State n}
    (h : (service n).RunWhere G (service n).init s) : s.Ordered :=
  h.invariant (State.ordered_init n) fun _ _ _ hI _ hs => hI.step (State.turns_of_step hs)

namespace State

/-- A step of `run()` is a run of the service. -/
theorem run_of_runGo {n : ℕ} {s t : State n} (hab : s.aborted = none) (hgo : s.runGo = some t) :
    (service n).RunWhere (fun _ _ => True) s t := by
  have hstep : (service n).step s (.run .go) = some t := by
    simp [service, step, hab, runStep, hgo]
  exact .single trivial hstep

/-- A step of a worker is a run of the service. -/
theorem run_of_workerStep {n : ℕ} {s t : State n} {w : Fin n} {choice : WorkerChoice}
    (hab : s.aborted = none) (hgo : s.workerStep w choice = some t) :
    (service n).RunWhere (fun _ _ => True) s t := by
  have hstep : (service n).step s (.worker w choice) = some t := by
    simp [service, step, hab, hgo]
  exact .single trivial hstep

end State

/-! ### Threads that have left -/

/-- A step does not bring a thread back that has left its loop. -/
theorem State.Turns.left {n : ℕ} {s t : State n} {l : Label n} (hturn : s.Turns l t)
    (w : Fin n) (hleft : (s.workers w).pc.left = true) : (t.workers w).pc.left = true := by
  have hturned := hturn.worker w
  generalize s.workers w = v at hleft hturned
  generalize t.workers w = v' at hturned
  have hin : ∀ {o : OpId} {sz : ℕ} {stage : Stage}, v.pc ≠ .handling o sz stage := by
    intro o sz stage hpc
    rw [hpc] at hleft
    exact Bool.false_ne_true hleft
  cases hturned with
  | same | taken => exact hleft
  | resumed hpc =>
      rw [hpc] at hleft
      exact absurd hleft Bool.false_ne_true
  | proceeds h =>
      cases h with
      | take o sz hpc =>
          rw [hpc] at hleft
          exact absurd hleft Bool.false_ne_true
      | leave hpc | fails choice e hpc | returns hpc => rfl
      | handle choice hpc hfrom hto => exact absurd hpc hin
      | ret e hpc | finish hpc => exact absurd hpc hin
  | signals hpc => exact absurd hpc hin

/-- **A thread that has left its loop** never comes back. -/
theorem left_of_run {n : ℕ} {G : State n → Label n → Prop} {s t : State n} {w : Fin n}
    (h : (service n).RunWhere G s t) (hleft : (s.workers w).pc.left = true) :
    (t.workers w).pc.left = true :=
  h.invariant (I := fun t => (t.workers w).pc.left = true) hleft
    fun _ _ _ hI _ hs => (State.turns_of_step hs).left w hI

end Netknot.Win32
