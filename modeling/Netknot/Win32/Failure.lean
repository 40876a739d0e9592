import Netknot.Win32.Control
import Netknot.Win32.Delivery

/-!
# Failed Operations

`GetQueuedCompletionStatus` returns `FALSE` for an operation that failed, with the
operation's overlapped block. `_workerThreadProc` looks at the error code alone: it stores
the exception and returns, or, when `wsaLastErrorToExcept` does not list the code, ends the
process. The operation itself is forgotten.

## Main results

* `failed_operation`: the callback of an operation whose failure packet was taken is never
  invoked, and a task that was submitted successfully stays in `currentTasks`.
* `failure_spares_others`: the step leaves all other tasks and workers as they were.
* `failure_not_contained`: the failure of an operation is never contained to it, in any
  state after its packet was taken.
* `failure_stops_worker`: a run in which a connection reset costs the service its only
  worker.
-/

namespace Netknot.Win32

/-- A failing operation affects only itself: `s` is the state before worker `w` takes the
failure packet of `o`, and `t` one after it has handled it. -/
structure State.FailureContained {n : ℕ} (s t : State n) (w : Fin n) (o : OpId) : Prop where
  /-- The process has not terminated. -/
  running : t.aborted = none
  /-- The worker is in its loop. -/
  inLoop : (t.workers w).pc.left = false
  /-- The failed task is no longer in `currentTasks`. -/
  removed : o ∉ t.currentTasks
  /-- Its callback was invoked once. -/
  notified : (t.calls o).callbacks = 1
  /-- Every other task is in `currentTasks` as before. -/
  tasks : ∀ o', o' ≠ o → (o' ∈ t.currentTasks ↔ o' ∈ s.currentTasks)
  /-- Every other worker is where it was. -/
  workers : ∀ w', w' ≠ w → t.workers w' = s.workers w'

/-! ### The operation -/

/-- The failure packet of an operation is the last there is of it. -/
theorem Call.failed_stays {c c' : Call} {ev : Event} (hs : c.Sound) (h : c.packet = .failed)
    (hstep : Steps c ev c') : c'.packet = .failed := by
  cases hstep with
  | submit hsub =>
      have hmade : c.packet ≠ .notIssued := by
        rw [h]
        exact PacketPhase.noConfusion
      rw [(submitFrame_of_submits hs hsub).packet_eq hmade]
      exact h
  | register hsub =>
      cases hsub with
      | insert hpc => exact h
  | complete hp | completeFailed hp | dequeue hp | takeFailed hp | holdRaw sz hp | hit sz hp hreg
  | miss sz hp hreg | dropOverlappedRef sz hp | addTransferred sz hp | setDone sz hp
  | invoke sz hp | stays sz hp hin hin' | dropTask sz exits hp | dropRaw sz exits hit hp =>
      rw [hp] at h
      cases h

/-- The packet stays failed in every further run. -/
theorem failed_of_run {H : Call → Event → Prop} {c c' : Call} (hs : c.Sound)
    (hf : c.packet = .failed) (h : lifecycle.RunWhere H c c') : c'.packet = .failed := by
  have hall : c'.Sound ∧ c'.packet = .failed := by
    refine h.invariant (I := fun c => c.Sound ∧ c.packet = .failed) ⟨hs, hf⟩ ?_
    rintro c ev c' ⟨hs, hf⟩ - hstep
    have hsteps := Call.steps_of_after hstep
    exact ⟨hs.step hsteps, Call.failed_stays hs hf hsteps⟩
  exact hall.2

/-- **A failed operation is forgotten**: its callback is never invoked, and its task stays
in `currentTasks`. -/
theorem failed_operation {n : ℕ} {s : State n} {o : OpId} (hs : (service n).Reachable s)
    (hf : (s.calls o).packet = .failed) :
    (s.calls o).callbacks = 0 ∧ ((s.calls o).pc = .returned none → o ∈ s.currentTasks) := by
  have hlife : lifecycle.Reachable (s.calls o) := reachable_life hs o
  obtain ⟨⟨hsound, hexits⟩, hcounted⟩ := lifecycle_counted hlife
  refine ⟨?_, fun hpc => ?_⟩
  · rw [hcounted.callbacks, hf]
    rfl
  · have hnofail : (s.calls o).failPoint = none := by
      by_contra hne
      obtain ⟨p, hp⟩ := Option.ne_none_iff_exists'.mp hne
      obtain ⟨-, e, he, hthrows, hissued⟩ := hexits.failed p hp
      obtain rfl : e = none := (SubmitPc.returned.inj (hpc.symm.trans he)).symm
      by_cases hpost : p = .postAsyncTask
      · exact hthrows (by rw [hpost]; decide) rfl
      · exact PacketPhase.noConfusion (hf.symm.trans (hissued hpost))
    have hreg : (s.calls o).registered = true := by
      rw [hcounted.inserted (by rw [hpc]; rfl) hnofail, hf]
      rfl
    have hcount : s.currentTasks.count o = 1 := by
      rw [(service_coherent hs o).tasks, hreg]
      rfl
    exact List.count_pos_iff.mp (by rw [hcount]; exact Nat.one_pos)

/-! ### The step -/

/-- The step of a worker that takes a failure packet ends in its way out. -/
theorem State.step_failed {n : ℕ} {s t : State n} {w : Fin n} {o : OpId} {code : ℕ}
    {rest : List Packet} {allocated : Bool} (hw : (s.workers w).pc = .waiting)
    (hqueue : s.queue = .opFailed o code :: rest)
    (hstep : s.step (.worker w (.failed allocated)) = some t) :
    t = (({ s with queue := rest } : State n).setCall o
      (s.calls o).takeFailed).portError w code allocated := by
  rw [step] at hstep
  split at hstep
  · cases hstep
  · simpa [workerStep, hw, waitingStep, hqueue] using hstep.symm

/-- A worker that `GetQueuedCompletionStatus` refused leaves its loop, or the process
has terminated. -/
theorem State.portError_ends {n : ℕ} (s : State n) (w : Fin n) (code : ℕ) (allocated : Bool) :
    (s.portError w code allocated).aborted.isSome = true ∨
      ((s.portError w code allocated).workers w).pc.left = true := by
  rw [portError]
  split
  · exact .inl rfl
  · refine .inr ?_
    simp [setWorker, WorkerPc.left]

/-- **The others are spared**: taking a failure packet changes no other call, no membership
in `currentTasks` and no other worker. -/
theorem failure_spares_others {n : ℕ} {s t : State n} {w : Fin n} {o : OpId} {code : ℕ}
    {rest : List Packet} {allocated : Bool} (hw : (s.workers w).pc = .waiting)
    (hqueue : s.queue = .opFailed o code :: rest)
    (hstep : s.step (.worker w (.failed allocated)) = some t) :
    (∀ o', o' ≠ o → t.calls o' = s.calls o') ∧ t.currentTasks = s.currentTasks ∧
      ∀ w', w' ≠ w → t.workers w' = s.workers w' := by
  rw [State.step_failed hw hqueue hstep]
  obtain ⟨v, -, hcalls, htasks, -, hworkers⟩ := State.portError_eq
    (({ s with queue := rest } : State n).setCall o (s.calls o).takeFailed) w code allocated
  refine ⟨fun o' ho => ?_, htasks, fun w' hw' => ?_⟩
  · rw [hcalls]
    exact Function.update_of_ne ho _ _
  · rw [hworkers]
    exact Function.update_of_ne hw' _ _

/-- **The failure of an operation is never contained to it**: whatever happens after a
worker took its packet, the process has terminated, or the worker is out of its loop and
the callback has not been invoked. -/
theorem failure_not_contained {n : ℕ} {s t u : State n} {w : Fin n} {o : OpId} {code : ℕ}
    {rest : List Packet} {allocated : Bool} (hs : (service n).Reachable s)
    (hw : (s.workers w).pc = .waiting) (hqueue : s.queue = .opFailed o code :: rest)
    (hstep : s.step (.worker w (.failed allocated)) = some t)
    (hrun : (service n).RunWhere (fun _ _ => True) t u) : ¬s.FailureContained u w o := by
  intro hcontained
  have hstep' : (service n).step s (.worker w (.failed allocated)) = some t := hstep
  have hone : (service n).RunWhere (fun _ _ => True) s t := .single trivial hstep'
  have hreach : (service n).Reachable t := hs.trans hone
  have hcall : (t.calls o).packet = .failed := by
    obtain ⟨v, -, hcalls, -⟩ := State.portError_eq
      (({ s with queue := rest } : State n).setCall o (s.calls o).takeFailed) w code allocated
    rw [State.step_failed hw hqueue hstep, hcalls]
    simp [State.setCall, Call.takeFailed]
  have hlife : lifecycle.RunWhere (fun _ _ => True) (t.calls o) (u.calls o) :=
    life_of_any_run (service_coherent hreach) hrun o
  have hfailed : (u.calls o).packet = .failed :=
    failed_of_run (service_coherent hreach o).sound hcall hlife
  have hnever : (u.calls o).callbacks = 0 :=
    (failed_operation (hreach.trans hrun) hfailed).1
  exact absurd (hnever.symm.trans hcontained.notified) Nat.zero_ne_one

/-- **The worker is gone** as well, unless the process is. -/
theorem failure_ends_worker {n : ℕ} {s t u : State n} {w : Fin n} {o : OpId} {code : ℕ}
    {rest : List Packet} {allocated : Bool} (hw : (s.workers w).pc = .waiting)
    (hqueue : s.queue = .opFailed o code :: rest)
    (hstep : s.step (.worker w (.failed allocated)) = some t)
    (hrun : (service n).RunWhere (fun _ _ => True) t u) :
    u.aborted.isSome = true ∨ (u.workers w).pc.left = true := by
  have hends := State.portError_ends
    (({ s with queue := rest } : State n).setCall o (s.calls o).takeFailed) w code allocated
  rw [← State.step_failed hw hqueue hstep] at hends
  rcases hends with hab | hleft
  · refine .inl (hrun.invariant (I := fun u => u.aborted.isSome = true) hab ?_)
    intro t l u hab _ hstep
    have hnone : t.step l = none := by simp [State.step, hab]
    exact absurd (hnone.symm.trans hstep) (by simp)
  · exact .inr (left_of_run hrun hleft)

/-! ### Concrete runs -/

/-- A read that is pending when the peer resets its connection, up to its failure packet. -/
def readReset : List (Label 1) :=
  startUp ++ (submitUpToIssue .read).take 4 ++ submitUpToInsert ++ submitUpToReturn ++
    [.completeFailed 0 WSAECONNRESET]

/-- The connection reset is not contained. -/
theorem failure_not_contained_read :
    ∃ s t : State 1, (t.workers 0).pc = .returning ∧ ¬s.FailureContained t 0 0 := by
  obtain ⟨s, hrun, t, hstep, hw, hqueue, hpc⟩ := Machine.exists_runWhere (M := service 1)
    (G := fun _ _ => True) (s := (service 1).init)
    (P := fun s => ∃ t ∈ s.step (.worker 0 (.failed true)), (s.workers 0).pc = .waiting ∧
      s.queue = [.opFailed 0 WSAECONNRESET] ∧ (t.workers 0).pc = .returning)
    readReset (by decide)
  exact ⟨s, t, hpc, failure_not_contained hrun hw hqueue hstep .refl⟩

/-- **A connection reset ends the worker**: it leaves its loop, and the read's callback has
not been invoked. -/
theorem failure_stops_worker :
    ¬∀ (n : ℕ) (s t : State n) (w : Fin n) (o : OpId) (code : ℕ) (rest : List Packet)
      (allocated : Bool), (service n).Reachable s → (s.workers w).pc = .waiting →
      s.queue = .opFailed o code :: rest →
      s.step (.worker w (.failed allocated)) = some t → s.FailureContained t w o := by
  intro h
  obtain ⟨s, hrun, t, hstep, hw, hqueue, hpc⟩ := Machine.exists_runWhere (M := service 1)
    (G := fun _ _ => True) (s := (service 1).init)
    (P := fun s => ∃ t ∈ s.step (.worker 0 (.failed true)), (s.workers 0).pc = .waiting ∧
      s.queue = [.opFailed 0 WSAECONNRESET] ∧ (t.workers 0).pc.left = true)
    readReset (by decide)
  exact absurd (hpc.symm.trans (h 1 s t 0 0 _ _ _ hrun hw hqueue hstep).inLoop) Bool.noConfusion

end Netknot.Win32
