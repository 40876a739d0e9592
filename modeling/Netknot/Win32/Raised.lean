import Netknot.Win32.Teardown

/-!
# The Way of an Exception

What a callback returns is stored by its worker, which leaves if it is an exception; `run()` finds
it in its last loop, when all workers have ended, and returns it. Until the next `run()` nothing
takes it back: an exception that a callback has returned is in the hand of its worker, stored, or
what `run()` returned.

## Main results

* `passed_of_step`: a task is behind its callback only after a worker was there and returned.
* `Raised.step`: a stored exception comes to the caller of `run()`.
* `over_of_return`, `Over.step`: from its return on `run()` has no worker, and nothing is stored
  if it returned no exception.
-/

namespace Netknot.Win32

/-- The callback of the task has returned. -/
def PacketPhase.passed : PacketPhase → Bool
  | .held .failing | .held (.dropTask _) | .held (.dropRaw _ true) | .delivered => true
  | _ => false

/-- What has passed was found. -/
theorem PacketPhase.found_of_settled {p : PacketPhase} (hheld : ∀ stage, p ≠ .held stage)
    (h : p.passed = false) : p.found = false := by
  cases p with
  | held stage => exact absurd rfl (hheld stage)
  | delivered => cases h
  | _ => rfl

/-- **Only a return passes the callback.** -/
theorem Call.passed_of_after {c c' : Call} {ev : Event} (hs : c.Sound)
    (h : c.after ev = some c') (hpassed : c'.packet.passed = true) :
    c.packet.passed = true ∨ ∃ sz e, ev = .handle .callback sz (.ret e) := by
  cases ev with
  | submit choice =>
      left
      cases steps_of_after h with
      | submit hsub =>
          rcases (submitFrame_of_submits hs hsub).packet with hsame | ⟨-, hpending⟩
          · exact hsame ▸ hpassed
          · rw [hpending] at hpassed
            cases hpassed
      | register hsub =>
          cases hsub with
          | insert hpc => exact hpassed
  | complete | completeFailed | dequeue | takeFailed =>
      obtain ⟨-, rfl⟩ := Option.ite_none_right_eq_some.mp h |>.imp_right Option.some.inj
      cases hpassed
  | handle stage sz choice =>
      obtain ⟨hp, hgo⟩ := Option.ite_none_right_eq_some.mp h
      rw [hp]
      unfold handle at hgo
      split at hgo <;> cases hgo
      · cases hpassed
      · split at hpassed <;> cases hpassed
      · cases hpassed
      · cases hpassed
      · cases hpassed
      · cases hpassed
      · cases hpassed
      · cases hpassed
      · cases hpassed
      · exact .inr ⟨sz, _, rfl⟩
      · exact .inl rfl
      · exact .inl rfl
      · rename_i hit
        cases hit with
        | true => exact .inl rfl
        | false => cases hpassed

namespace State

section

variable {n : ℕ} {s t : State n} {l : Label n}

/-- A packet that a step of the service takes **past the callback** is that of a worker that
returns from it. -/
theorem passed_of_step (hcoh : s.Coherent) (hstep : s.step l = some t) {o : OpId}
    (h : (t.calls o).packet.passed = true) : (s.calls o).packet.passed = true ∨
      ∃ w sz e, l = .worker w (.ret e) ∧ (s.workers w).pc = .handling o sz .callback := by
  rcases (moves_of_step hcoh hstep).calls o with hsame | ⟨ev, hev, hafter⟩
  · exact .inl (hsame ▸ h)
  · rcases Call.passed_of_after (hcoh o).sound hafter h with hold | ⟨sz, e, rfl⟩
    · exact .inl hold
    · right
      cases l with
      | submit o' choice | complete o' sz' | completeFailed o' code | run choice => cases hev
      | worker w choice =>
          simp only [eventOf] at hev
          split at hev
          · split at hev <;> cases hev
          · rename_i hpc
            cases hev
            exact ⟨w, sz, e, rfl, hpc⟩
          · cases hev

/-- A worker that moves is active. -/
theorem active_of_workerStep {w : Fin n} {choice : WorkerChoice}
    (hstep : s.workerStep w choice = some t) : (s.workers w).pc.active = true := by
  cases hpc : (s.workers w).pc with
  | suspended | exited =>
      rw [workerStep, hpc] at hstep
      cases hstep
  | _ => rfl

/-- **What a worker stored stays**, whatever the workers do. -/
theorem stored_of_workerStep (ho : s.Ordered) (hclean : s.Clean) {w : Fin n}
    {choice : WorkerChoice} (hstep : s.step (.worker w choice) = some t) (w' : Fin n)
    {e : Exception} (he : (s.workers w').exceptionStorage = some e) :
    (t.workers w').exceptionStorage = some e := by
  have hactive : (s.workers w).pc.active = true :=
    active_of_workerStep (Option.ite_none_left_eq_some.mp hstep).2
  have hupdate : ∀ {i : Fin n} {v : Worker}, t.workers = Function.update s.workers i v →
      ((s.workers i).exceptionStorage = some e → v.exceptionStorage = some e) →
      (t.workers w').exceptionStorage = some e := fun hworkers hv =>
    forall_workers_update (P := fun i v => (s.workers i).exceptionStorage = some e →
      v.exceptionStorage = some e) (fun _ hi => hi) hworkers hv w' he
  have hnone : ∀ {i : Fin n} {P : Prop}, (s.workers i).pc.exiting = false →
      (s.workers i).exceptionStorage = some e → P := fun hi hstored =>
    absurd ((hclean _ hi).symm.trans hstored) (Option.some_ne_none e).symm
  cases turns_of_step hstep with
  | quiet hworkers hrun hflags | enter hpc hworkers hrun hflags
  | start hpc hworkers hrun hflags | advance hpc hadv hworkers hflags => rwa [hworkers]
  | throw i hworkers hrun hflags hpc =>
      exact absurd ((ho.active w hactive).symm.trans hpc) Bool.noConfusion
  | resume i hpc hw hworkers hrun hflags => exact hupdate hworkers id
  | proceed w hw hworkers hrun hflags =>
      cases hw with
      | fails choice e' hpc => exact hupdate hworkers (hnone (by rw [hpc]; rfl))
      | ret e' hpc => exact hupdate hworkers (hnone (by rw [hpc]; rfl))
      | _ => exact hupdate hworkers id
  | stopStore w hw hworkers hrun hflags | stopWake w hw hworkers hrun hflags
  | failWake w hw hworkers hrun hflags => exact hupdate hworkers id

/-- **Without a `run()`** no worker moves, and what the last one left stands. -/
structure Rested {n : ℕ} (s t : State n) : Prop where
  outside : t.runPc = .outside
  result : t.result = s.result
  workers : t.workers = s.workers
  isRunning : t.isRunning = s.isRunning

/-- No worker is active between two runs. -/
theorem Ordered.not_active (ho : s.Ordered) (hout : s.runPc = .outside) (w : Fin n) :
    (s.workers w).pc.active = false := by
  refine Bool.eq_false_iff.mpr fun hactive => ?_
  have hserving := ho.active w hactive
  rw [hout] at hserving
  cases hserving

/-- The step lemma: a service at rest stays so until `run()` is called. -/
theorem rested_of_step (hidle : ∀ w, (s.workers w).pc.active = false)
    (hout : s.runPc = .outside) (hl : l ≠ .run .call) (hstep : s.step l = some t) :
    s.Rested t := by
  obtain ⟨-, hgo⟩ := Option.ite_none_left_eq_some.mp hstep
  cases l with
  | submit o choice =>
      obtain ⟨a, -, rfl⟩ := Option.map_eq_some_iff.mp hgo
      cases a <;> exact ⟨hout, rfl, rfl, rfl⟩
  | complete o sz | completeFailed o code =>
      obtain ⟨-, rfl⟩ := Option.ite_none_right_eq_some.mp hgo |>.imp_right Option.some.inj
      exact ⟨hout, rfl, rfl, rfl⟩
  | worker w choice =>
      exact absurd ((hidle w).symm.trans (active_of_workerStep hgo)) Bool.false_ne_true
  | run choice =>
      cases choice with
      | call => exact absurd rfl hl
      | go =>
          simp only [runStep, runGo, hout] at hgo
          cases hgo
      | spurious =>
          simp only [runStep, hout] at hgo
          cases hgo

/-! ### To the caller of `run()` -/

/-- An exception is stored, or was returned by the last `run()`. -/
def Raised {n : ℕ} (s : State n) : Prop :=
  (∃ w, (s.workers w).exceptionStorage ≠ none) ∨
    s.runPc = .outside ∧ ∃ e, s.result = some (some e)

/-- An exception that a worker stored is raised, whatever storage a loop of `run()` comes to. -/
theorem raised_takeException {i : Fin n} {next : RunPc}
    (h : ∃ w, (s.workers w).exceptionStorage ≠ none) : (s.takeException i next).Raised := by
  rw [takeException]
  split
  · exact .inl h
  · exact .inr ⟨rfl, _, rfl⟩

/-- **The step lemma**: a stored exception comes to the caller of `run()`. -/
theorem Raised.step (ho : s.Ordered) (hclean : s.Clean) (h : s.Raised) (hl : l ≠ .run .call)
    (hstep : s.step l = some t) : t.Raised := by
  rcases h with hstored | ⟨hout, e, hresult⟩
  · obtain ⟨-, hgo⟩ := Option.ite_none_left_eq_some.mp hstep
    cases l with
    | submit o choice =>
        obtain ⟨a, -, rfl⟩ := Option.map_eq_some_iff.mp hgo
        cases a <;> exact .inl hstored
    | complete o sz | completeFailed o code =>
        obtain ⟨-, rfl⟩ := Option.ite_none_right_eq_some.mp hgo |>.imp_right Option.some.inj
        exact .inl hstored
    | worker w choice =>
        obtain ⟨w', hw'⟩ := hstored
        obtain ⟨e, he⟩ := Option.ne_none_iff_exists'.mp hw'
        refine .inl ⟨w', ?_⟩
        rw [stored_of_workerStep ho hclean hstep w' he]
        exact Option.some_ne_none e
    | run choice =>
        cases runs_of_runStep hgo with
        | guard hpc hrunning | enter hpc hidle => exact absurd rfl hl
        | scan i hpc | collect i hpc => exact raised_takeException hstored
        | resume i hpc hw =>
            refine .inl (hstored.imp fun w hw' => ?_)
            by_cases heq : w = i
            · subst heq
              simpa [setPc, setWorker] using hw'
            · simpa [setPc, setWorker, heq] using hw'
        | _ => exact .inl hstored
  · have hrested := rested_of_step (ho.not_active hout) hout hl hstep
    exact .inr ⟨hrested.outside, e, hrested.result.trans hresult⟩

/-- **What a callback returns is stored** when it returns; until then the worker leaves it only
for `stop()`. -/
theorem callback_of_step {w : Fin n} {o : OpId} {sz : ℕ}
    (hw : (s.workers w).pc = .handling o sz .callback) (hstep : s.step l = some t) :
    (t.workers w).pc = .handling o sz .callback ∨ l = .worker w .stop ∨
      ∃ e, l = .worker w (.ret e) ∧ (t.workers w).exceptionStorage = e := by
  obtain ⟨-, hgo⟩ := Option.ite_none_left_eq_some.mp hstep
  cases l with
  | submit o' choice =>
      obtain ⟨a, -, rfl⟩ := Option.map_eq_some_iff.mp hgo
      cases a <;> exact .inl hw
  | complete o' sz' | completeFailed o' code =>
      obtain ⟨-, rfl⟩ := Option.ite_none_right_eq_some.mp hgo |>.imp_right Option.some.inj
      exact .inl hw
  | worker w' choice =>
      by_cases heq : w' = w
      · subst heq
        have hhandling : s.handlingStep w' o sz .callback choice = some t := by
          simpa only [workerStep, hw] using hgo
        cases handles_of_handlingStep hhandling with
        | stop => exact .inr (.inl rfl)
        | ret e => exact .inr (.inr ⟨e, rfl, by simp [callbackReturned, setWorker]⟩)
      · obtain ⟨v, hstores⟩ := stores_worker hgo
        rw [hstores.workers, Function.update_of_ne (Ne.symm heq)]
        exact .inl hw
  | run choice =>
      left
      have hkept : ∀ {i : Fin n} {v : Worker}, v.pc = (s.workers i).pc →
          (Function.update s.workers i v w).pc = .handling o sz .callback := by
        intro i v hv
        by_cases heq : w = i
        · subst heq
          rw [Function.update_self, hv, hw]
        · rw [Function.update_of_ne heq, hw]
      cases runs_of_runStep hgo with
      | scan i hpc | collect i hpc =>
          rw [takeException]
          split
          · exact hw
          · exact hkept rfl
      | resume i hpc hi =>
          have hne : w ≠ i := by
            rintro rfl
            rw [hw] at hi
            cases hi
          simpa [setPc, setWorker, hne] using hw
      | _ => exact hw

/-! ### After the return -/

/-- **`run()` has returned**, and was not called since. -/
structure Over {n : ℕ} (s : State n) : Prop where
  outside : s.runPc = .outside
  exited : ∀ w, (s.workers w).pc = .exited
  result : ∃ e, s.result = some e ∧ (e = none → ∀ w, (s.workers w).exceptionStorage = none)

/-- The workers have ended. -/
theorem Over.not_active (h : s.Over) (w : Fin n) : (s.workers w).pc.active = false := by
  rw [h.exited]
  rfl

/-- The step lemma of `Over`: every step but a call of `run()` keeps it. -/
theorem Over.step (h : s.Over) (hl : l ≠ .run .call)
    (hstep : s.step l = some t) : t.Over := by
  obtain ⟨hout, hresult, hworkers, -⟩ := rested_of_step h.not_active h.outside hl hstep
  exact ⟨hout, hworkers ▸ h.exited, by rw [hresult, hworkers]; exact h.result⟩

/-- If it returned no exception, no worker has one. -/
theorem Over.not_stored (h : s.Over) (hresult : s.result = some none) (w : Fin n) :
    (s.workers w).exceptionStorage = none := by
  obtain ⟨e, he, hnone⟩ := h.result
  exact hnone (Option.some.inj (he.symm.trans hresult)) w

/-- If it returned no exception, none is on its way. -/
theorem Over.not_raised (h : s.Over) (hresult : s.result = some none) : ¬s.Raised := by
  rintro (⟨w, hw⟩ | ⟨-, e, he⟩)
  · exact hw (h.not_stored hresult w)
  · rw [hresult] at he
    cases he

end

end State

/-- In every run the control part is in order, and the storages that the last loop of `run()` has
passed are empty. -/
theorem clean_of_run {n : ℕ} {s : State n} (h : (service n).Reachable s) :
    s.Ordered ∧ s.Clean ∧ ∀ i, s.runPc = .collecting i → ∀ w : Fin n, w < i →
      (s.workers w).exceptionStorage = none := by
  obtain ⟨stored, hrun⟩ := h.remember (fun _ => false) State.noteStored fun _ => false
  obtain ⟨ho, hclean, hrecords⟩ := reporting_records (p := (s, stored)) hrun
  exact ⟨ho, hclean, hrecords.collected⟩

/-- In every run the control part is in order, and the threads that `run()` has joined
have ended. -/
theorem threads_settled {n : ℕ} {s : State n} (h : (service n).Reachable s) :
    s.Ordered ∧ s.Settled := by
  refine h.invariant (I := fun s => s.Ordered ∧ s.Settled)
    ⟨State.ordered_init n, fun _ => .inl fun _ => rfl, fun i hi => by cases hi⟩ ?_
  rintro s l t ⟨ho, hsettled⟩ hstep
  have hturn := State.turns_of_step hstep
  exact ⟨ho.step hturn, hsettled.step ho hturn⟩

/-- **The return of `run()`** leaves the service over. -/
theorem over_of_return {n : ℕ} {s t : State n} {l : Label n} (h : (service n).Reachable s)
    (hstep : s.step l = some t) (hin : s.runPc ≠ .outside) (hout : t.runPc = .outside) :
    t.Over := by
  have hreturns := State.returnsFrom_of_outside hstep hin hout
  refine ⟨hout, (threads_settled h).2.exited hreturns, ?_⟩
  cases hreturns with
  | throws i e hpc he => exact ⟨_, rfl, fun hnone => by cases hnone⟩
  | @ends i hpc hle =>
      exact ⟨_, rfl, fun _ w =>
        (clean_of_run h).2.2 i hpc w (Nat.lt_of_lt_of_le w.isLt hle)⟩

end Netknot.Win32
