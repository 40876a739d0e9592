import Netknot.Unix.Service
import Netknot.Win32.Control
import Netknot.Win32.Delivery

/-!
# Stopping the Service

`stop()` ends the process when it finds `_isRunning` false. The two backends keep the flag
differently. On Windows `run()` raises it before the first worker can move, and the first
`stop()` lowers it at once, while callbacks that will call `stop()` can still come: the
second call ends the process. On Unix `run()` raises it when it is about to return, so
every `stop()` during `run()` ends the process.

## Main results

* `Win32.stop_aborts_iff`, `Unix.stop_aborts`: what a `stop()` call finds, by backend.
* `stop_guard`: when no `stop()` during `run()` ends the process.
* `second_stop_aborts`: two callbacks that call `stop()`.
-/

namespace Netknot

namespace Win32

/-- **The step condition**: a callback calls `stop()` only while no `stop()` of this run has
lowered the flag. -/
def State.stopsOnce {n : ℕ} (s : State n) : Label n → Bool
  | .worker _ .stop => !s.stopStored
  | _ => true

/-- **What a `stop()` call finds**: it ends the process if and only if an earlier call of
the same run has lowered the flag. -/
theorem stop_aborts_iff {n : ℕ} {s t : State n} {w : Fin n} (hs : (service n).Reachable s)
    (hstep : s.step (.worker w .stop) = some t) :
    t.aborted = some .stopGuard ↔ s.stopStored = true := by
  have hab : s.aborted = none := State.aborted_of_step hstep
  have hworker : s.workerStep w .stop = some t := by
    simpa [State.step, hab] using hstep
  rw [State.workerStep] at hworker
  split at hworker
  · cases hworker
  · rename_i o sz stage hw
    have hserving : s.runPc.serving = true :=
      (service_ordered hs).active w (by rw [hw]; rfl)
    have hflag : s.isRunning = !s.stopStored := (service_ordered hs).flag hserving
    cases stage with
    | callback =>
        simp only [State.handlingStep, State.stopGuard] at hworker
        obtain rfl := Option.some.inj hworker
        cases hstored : s.stopStored <;> rw [hstored] at hflag
        · rw [if_pos (by simpa using hflag)]
          simp [State.advance, State.setPc, State.setWorker, State.setCall, hab]
        · rw [if_neg (by simp [hflag])]
          simp [State.abort]
    | _ => cases hworker
  · cases hworker
  · cases hworker
  · cases hworker

/-- A submit call does not end the process in the guard of `stop()`. -/
theorem Call.submit_ne_stopGuard (c : Call) (choice : SubmitChoice) :
    c.submit choice ≠ some (.aborts .stopGuard) := by
  intro h
  cases choice with
  | call kind tooBig =>
      obtain ⟨-, h⟩ := Option.ite_none_right_eq_some.mp h
      cases h
  | alloc ok =>
      simp only [submit] at h
      split at h
      · cases h
      · split at h <;> cases h
      · cases h
      · rename_i result hpc
        unfold checkResult at h
        split at h
        · cases h
        · split at h
          · cases h
          · split at h <;> cases h
      · cases ok <;> cases h
      · cases h
  | socketFails =>
      obtain ⟨-, h⟩ := Option.ite_none_right_eq_some.mp h
      cases h
  | issue result =>
      obtain ⟨-, h⟩ := Option.ite_none_right_eq_some.mp h
      cases h
  | go =>
      simp only [submit] at h
      split at h <;> cases h
  | release =>
      obtain ⟨-, h⟩ := Option.ite_none_right_eq_some.mp h
      cases h

namespace State

/-- A failed `GetQueuedCompletionStatus` does not end the process in the guard of `stop()`. -/
theorem portError_ne_stopGuard {n : ℕ} {s : State n} (w : Fin n) (code : ℕ)
    (allocated : Bool) (hab : s.aborted = none) :
    (s.portError w code allocated).aborted ≠ some .stopGuard := by
  rw [portError]
  split
  · exact fun h => by cases h
  · rw [setWorker, hab]
    exact fun h => by cases h

/-- A step of a worker ends the process in the guard of `stop()` only when its callback
calls `stop()`. -/
theorem workerStep_stopGuard {n : ℕ} {s t : State n} {w : Fin n} {choice : WorkerChoice}
    (hab : s.aborted = none) (hstep : s.workerStep w choice = some t)
    (habort : t.aborted = some .stopGuard) : choice = .stop := by
  have hsame : t.aborted ≠ s.aborted := by
    rw [habort, hab]
    exact Option.some_ne_none _
  unfold workerStep at hstep
  split at hstep
  · cases takes_of_waitingStep hstep with
    | zero hqueue | op hqueue => exact absurd rfl hsame
    | opFailed hqueue allocated =>
        exact absurd habort (portError_ne_stopGuard w _ allocated hab)
    | portFailed code allocated =>
        exact absurd habort (portError_ne_stopGuard w code allocated hab)
  · rename_i o sz stage hw
    have hwake : s.wakeAll.aborted = s.aborted := by
      unfold wakeAll
      split <;> rfl
    have hlookup : (s.lookup w o sz).aborted = s.aborted := by
      unfold lookup
      split <;> rfl
    cases handles_of_handlingStep hstep with
    | stop => rfl
    | lookup => exact absurd hlookup hsame
    | stopWake | fail => exact absurd hwake hsame
    | hold | dropRef | addTransferred | setDone | invoke | stopStore | ret e | dropTask exits
    | dropRaw exits hit => exact absurd rfl hsame
  · obtain ⟨-, hstep⟩ := Option.ite_none_right_eq_some.mp hstep
    obtain rfl := Option.some.inj hstep
    exact absurd rfl hsame
  · cases hstep
  · cases hstep

/-- A step of `run()` does not end the process in the guard of `stop()`. -/
theorem runStep_ne_stopGuard {n : ℕ} {s t : State n} {choice : RunChoice}
    (hab : s.aborted = none) (hstep : s.runStep choice = some t) :
    t.aborted ≠ some .stopGuard := by
  have hsame : t.aborted = s.aborted → t.aborted ≠ some .stopGuard := fun h => by
    rw [h, hab]
    exact fun hh => by cases hh
  have htake : ∀ (i : Fin n) (next : RunPc), (s.takeException i next).aborted = s.aborted := by
    intro i next
    rw [takeException]
    split <;> rfl
  cases runs_of_runStep hstep with
  | guard hpc hrunning => exact fun hh => by cases hh
  | scan i hpc | collect i hpc => exact hsame (htake _ _)
  | enter hpc hidle | spurious hpc | scanned hpc hall | start hpc | resume i hpc hw | skip i hpc hw
  | resumed hpc hall | sleep hpc | post i hpc | posted hpc hall | join i hpc hw | joined hpc hall
  | collected hpc hall => exact hsame rfl

end State

/-- **The guard of `stop()`** ends the process only in a `stop()` call. -/
theorem stopGuard_of_step {n : ℕ} {s t : State n} {l : Label n} (hstep : s.step l = some t)
    (habort : t.aborted = some .stopGuard) : ∃ w, l = .worker w .stop := by
  have hab : s.aborted = none := State.aborted_of_step hstep
  cases l with
  | submit o choice =>
      have hsubmit : s.submitStep o choice = some t := by
        simpa [State.step, hab] using hstep
      obtain ⟨a, ha, rfl⟩ := Option.map_eq_some_iff.mp hsubmit
      cases a with
      | next c => exact absurd (hab.symm.trans habort) (by simp)
      | registers c => exact absurd (hab.symm.trans habort) (by simp)
      | aborts reason =>
          obtain rfl := Option.some.inj habort
          exact absurd ha (Call.submit_ne_stopGuard _ _)
  | complete o sz =>
      have hcomplete : s.completeStep o sz = some t := by
        simpa [State.step, hab] using hstep
      obtain ⟨-, hcomplete⟩ := Option.ite_none_right_eq_some.mp hcomplete
      obtain rfl := Option.some.inj hcomplete
      exact absurd (hab.symm.trans habort) (by simp)
  | completeFailed o code =>
      have hcomplete : s.completeFailedStep o code = some t := by
        simpa [State.step, hab] using hstep
      obtain ⟨-, hcomplete⟩ := Option.ite_none_right_eq_some.mp hcomplete
      obtain rfl := Option.some.inj hcomplete
      exact absurd (hab.symm.trans habort) (by simp)
  | worker w choice =>
      have hworker : s.workerStep w choice = some t := by
        simpa [State.step, hab] using hstep
      obtain rfl := State.workerStep_stopGuard hab hworker habort
      exact ⟨w, rfl⟩
  | run choice =>
      have hrun : s.runStep choice = some t := by
        simpa [State.step, hab] using hstep
      exact absurd habort (State.runStep_ne_stopGuard hab hrun)

/-- No `stop()` ends the process, in runs that meet the step condition. -/
theorem not_stopGuard {n : ℕ} {s : State n}
    (h : (service n).RunWhere (fun s l => s.stopsOnce l = true) (service n).init s) :
    s.aborted ≠ some .stopGuard := by
  have hall : (service n).Reachable s ∧ s.aborted ≠ some .stopGuard := by
    refine h.invariant (I := fun s => (service n).Reachable s ∧ s.aborted ≠ some .stopGuard)
      ⟨.refl, fun hh => by cases hh⟩ ?_
    rintro s l t ⟨hs, -⟩ hok hstep
    have hone : (service n).RunWhere (fun _ _ => True) s t := .single trivial hstep
    refine ⟨hs.trans hone, fun habort => ?_⟩
    obtain ⟨w, rfl⟩ := stopGuard_of_step hstep habort
    have hstored : s.stopStored = true := (stop_aborts_iff hs hstep).mp habort
    simp [State.stopsOnce, hstored] at hok
  exact hall.2

end Win32

namespace Unix

/-- **Every `stop()` during `run()`** ends the process. -/
theorem stop_aborts {n : ℕ} {s t : State n} {c : StopId} (hs : (service n).Reachable s)
    (hrun : s.runPc ≠ .outside) (hc : s.stops c = .idle)
    (hstep : s.step (.stop c) = some t) : t.aborted = true := by
  have hflag : s.isRunning = false := running_false hs hrun
  rw [State.step] at hstep
  split at hstep
  · cases hstep
  · simp only [State.stopStep, hc, hflag] at hstep
    obtain rfl := Option.some.inj hstep
    rfl

end Unix

/-- **When no `stop()` during `run()` ends the process.** On Windows: as long as no `stop()`
of the same run has lowered the flag, which is up until then; so in runs that meet the step
condition it never happens. On Unix: never. -/
theorem stop_guard (n : ℕ) :
    (∀ s : Win32.State n, (Win32.service n).Reachable s →
      (s.runPc.serving = true → s.isRunning = !s.stopStored) ∧
      ∀ w t, s.step (.worker w .stop) = some t →
        (t.aborted = some .stopGuard ↔ s.stopStored = true)) ∧
    (∀ s : Win32.State n,
      (Win32.service n).RunWhere (fun s l => s.stopsOnce l = true) (Win32.service n).init s →
        s.aborted ≠ some .stopGuard) ∧
    ∀ s : Unix.State n, (Unix.service n).Reachable s → s.runPc ≠ .outside →
      s.isRunning = false ∧
      ∀ c t, s.stops c = .idle → s.step (.stop c) = some t → t.aborted = true :=
  ⟨fun _ hs => ⟨(Win32.service_ordered hs).flag, fun _ _ => Win32.stop_aborts_iff hs⟩,
    fun _ => Win32.not_stopGuard,
    fun _ hs hrun => ⟨Unix.running_false hs hrun, fun _ _ => Unix.stop_aborts hs hrun⟩⟩

/-! ### Concrete runs -/

namespace Win32

/-- A read that completes at once and whose call returns. -/
def submitRead (o : OpId) : List (Label 1) :=
  [.submit o (.call .read false), .submit o (.alloc true), .submit o (.alloc true),
   .submit o (.issue .success), .complete o 5, .submit o (.alloc true), .submit o (.alloc true),
   .submit o .go, .submit o .go, .submit o .go]

/-- Two completions are queued; the callback of the first calls `stop()`, and the worker
takes the second. -/
def stopsTwice : List (Label 1) :=
  submitRead 0 ++ submitRead 1 ++ startUp ++ reachesCallback ++
    callsStop ++ leavesCallback ++ reachesCallback

end Win32

open Win32 in
/-- A single `stop()` does not end the process: on Windows, after which `run()` is woken, nor
on Unix. -/
theorem stop_guard_single :
    (∃ s : Win32.State 1, (s.runPc = .posting 0 ∧ s.stopDone = true) ∧
      s.aborted ≠ some .stopGuard) ∧
    ∃ s t : Unix.State 1, s.runPc = .asleep ∧ t.aborted = true := by
  constructor
  · obtain ⟨s, hrun, hs⟩ := Machine.exists_runWhere (M := Win32.service 1)
      (G := fun s l => s.stopsOnce l = true) (s := (Win32.service 1).init)
      (P := fun s => s.runPc = .posting 0 ∧ s.stopDone = true)
      (startUp ++ submitRead 0 ++ reachesCallback ++ callsStop) (by decide)
    exact ⟨s, hs, (stop_guard 1).2.1 s hrun⟩
  · obtain ⟨s, hrun, t, hstep, hpc, hc⟩ := Machine.exists_runWhere (M := Unix.service 1)
      (G := fun _ _ => True) (s := (Unix.service 1).init)
      (P := fun s => ∃ t ∈ s.step (.stop 0), s.runPc = .asleep ∧ s.stops 0 = .idle)
      [.worker 0, .call, .run, .run, .run, .run, .run] (by decide)
    exact ⟨s, t, hpc, ((stop_guard 1).2.2 s hrun (by rw [hpc]; decide)).2 0 t hc hstep⟩

/-- **A second `stop()`**, of the next callback in the queue, ends the process. -/
theorem second_stop_aborts :
    ¬((∀ (n : ℕ) (s t : Win32.State n) (w : Fin n), (Win32.service n).Reachable s →
        s.runPc.serving = true → s.step (.worker w .stop) = some t → t.aborted = none) ∧
      ∀ (n : ℕ) (s t : Unix.State n) (c : Unix.StopId), (Unix.service n).Reachable s →
        s.runPc ≠ .outside → s.stops c = .idle → s.step (.stop c) = some t →
        t.aborted = false) := by
  rintro ⟨h, -⟩
  obtain ⟨s, hrun, t, hstep, hserving, hbad⟩ := Machine.exists_runWhere
    (M := Win32.service 1) (G := fun _ _ => True) (s := (Win32.service 1).init)
    (P := fun s => ∃ t ∈ s.step (.worker 0 .stop), s.runPc.serving = true ∧
      t.aborted = some .stopGuard) Win32.stopsTwice (by decide)
  exact absurd (hbad.symm.trans (h 1 s t 0 hrun hserving hstep)) (by simp)

end Netknot
