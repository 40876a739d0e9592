import Netknot.Win32.Control
import Netknot.Win32.Delivery

/-!
# Waking `run()`

`run()` resumes its workers and then waits for the condition variable
`terminateNotifyConditionVar`, without a predicate. Two kinds of step signal it: `stop()`,
and a worker whose callback failed. A signal given before `run()` sleeps is lost, and a
worker that leaves because `GetQueuedCompletionStatus` failed gives none. `run()` then
sleeps although it should have returned.

When every signal is given in time, `run()` never sleeps on: `no_lost_wakeup`.

## Main results

* `Heard.step`, `no_lost_wakeup`: no lost wake-up in runs whose signals are given in time.
* `lost_of_late`: the condition is exact, in that from every step that violates it there is
  a run to a state in which the wake-up is lost.
* `wakeup_lost`: a `stop()` before the wait, after which `run()` sleeps.
-/

namespace Netknot.Win32

/-- No lost wake-up: while `run()` sleeps, no `stop()` of this run has returned, and no
worker has ended after storing an exception. -/
def State.NoLostWakeup {n : ℕ} (s : State n) : Prop :=
  s.runPc = .asleep → s.stopDone = false ∧
    ∀ w, (s.workers w).pc = .exited → (s.workers w).exceptionStorage = none

instance {n : ℕ} (s : State n) : Decidable s.NoLostWakeup :=
  inferInstanceAs (Decidable (_ → _ ∧ _))

/-- **The step condition**: `WakeAllConditionVariable` is not executed while `run()` has
started but not come to its wait, and a worker that `GetQueuedCompletionStatus` refused
does not end with an exception before `run()` was woken. -/
def State.signalsInTime {n : ℕ} (s : State n) : Label n → Bool
  | .worker w .go =>
      match (s.workers w).pc with
      | .handling _ _ .stopWake => !s.runPc.beforeWait
      | .handling _ _ .failing => !s.runPc.beforeWait
      | .returning => (s.workers w).exceptionStorage.isNone || !s.runPc.unwoken
      | _ => true
  | _ => true

/-- The worker is about to leave and has not signalled yet. -/
def WorkerPc.unsignalled : WorkerPc → Bool
  | .returning | .handling _ _ .failing => true
  | _ => false

/-- **The invariant**: as long as `run()` has not been woken, no `stop()` has returned, and
a worker with an exception has not signalled yet. -/
structure State.Heard {n : ℕ} (s : State n) : Prop where
  stop : s.runPc.unwoken = true → s.stopDone = false
  failure : s.runPc.unwoken = true → ∀ w, (s.workers w).exceptionStorage ≠ none →
    (s.workers w).pc.unsignalled = true

/-- `run()` is unwoken only from `ResumeThread` on. -/
theorem RunPc.Advances.unwoken {n : ℕ} {workers : Fin n → Worker} {p q : RunPc}
    (h : p.Advances workers q) (hq : q.unwoken = true) : p.unwoken = true := by
  cases h <;> first | rfl | exact absurd hq Bool.false_ne_true

/-- A signal that is not early wakes. -/
theorem RunPc.unwoken_woken {p : RunPc} (h : p.beforeWait = false) :
    p.woken.unwoken = false := by
  cases p <;> first | rfl | exact absurd h.symm Bool.false_ne_true

namespace State

/-- A worker that is not about to leave has no exception, and none when it only moves. -/
theorem Heard.moved {n : ℕ} {s : State n} {w : Fin n} {pc : WorkerPc} (h : s.Heard)
    (hun : s.runPc.unwoken = true) (hw : (s.workers w).pc.unsignalled = false)
    (he : ({ s.workers w with pc := pc } : Worker).exceptionStorage ≠ none) :
    pc.unsignalled = true :=
  absurd (hw.symm.trans (h.failure hun w he)) Bool.false_ne_true

/-- A worker that proceeds in time keeps `Heard`. -/
theorem Heard.proceeds {n : ℕ} {s : State n} {w : Fin n} {choice : WorkerChoice} {v : Worker}
    (h : s.Heard) (hun : s.runPc.unwoken = true) (hw : (s.workers w).Proceeds choice v)
    (hok : s.signalsInTime (.worker w choice) = true) (he : v.exceptionStorage ≠ none) :
    v.pc.unsignalled = true := by
  cases hw with
  | take o sz hpc => exact h.moved hun (by rw [hpc]; rfl) he
  | leave hpc => exact h.moved hun (by rw [hpc]; rfl) he
  | fails choice e hpc => rfl
  | returns hpc =>
      simp only [signalsInTime, hpc, hun, Bool.not_true, Bool.or_false,
        Option.isNone_iff_eq_none] at hok
      exact absurd hok he
  | @handle _ o sz stage stage' choice hpc hfrom hto =>
      refine h.moved hun ?_ he
      rw [hpc]
      cases stage <;> first | rfl | exact absurd rfl hfrom
  | @ret _ o sz e hpc =>
      cases e with
      | none => exact absurd rfl he
      | some e => rfl
  | @finish _ o sz exits hit hpc => exact h.moved hun (by rw [hpc]; rfl) he

/-- **The step lemma of `Heard`**: every step that signals in time keeps it. -/
theorem Heard.step {n : ℕ} {s t : State n} {l : Label n} (ho : s.Ordered) (h : s.Heard)
    (hok : s.signalsInTime l = true) (hturn : s.Turns l t) : t.Heard := by
  have hnever : t.runPc.unwoken = false → t.Heard := fun hrun =>
    ⟨fun hun => absurd (hrun.symm.trans hun) Bool.false_ne_true,
      fun hun => absurd (hrun.symm.trans hun) Bool.false_ne_true⟩
  have hupdate : s.runPc.unwoken = true → ∀ {w : Fin n} {v : Worker},
      t.workers = Function.update s.workers w v →
      (v.exceptionStorage ≠ none → v.pc.unsignalled = true) →
      ∀ w, (t.workers w).exceptionStorage ≠ none → (t.workers w).pc.unsignalled = true :=
    fun hun _ _ hworkers hv => forall_workers_update
      (P := fun _ v => v.exceptionStorage ≠ none → v.pc.unsignalled = true) (h.failure hun)
      hworkers hv
  cases hturn with
  | quiet hworkers hrun hflags =>
      obtain ⟨-, -, hdone⟩ := flags_eq_iff.mp hflags
      refine ⟨fun hun => ?_, fun hun => ?_⟩
      · rw [hdone]
        exact h.stop (hrun ▸ hun)
      · rw [hworkers]
        exact h.failure (hrun ▸ hun)
  | enter hpc hworkers hrun hflags => exact hnever (by rw [hrun]; rfl)
  | throw i hworkers hrun hflags hpc => exact hnever (by rw [hrun]; rfl)
  | start hpc hworkers hrun hflags =>
      obtain ⟨-, -, hdone⟩ := flags_eq_iff.mp hflags
      refine ⟨fun _ => ?_, fun _ w he => ?_⟩
      · rw [hdone]
        exact (ho.entering (by rw [hpc]; rfl)).2
      · rw [hworkers] at he
        exact absurd (ho.starting hpc w) he
  | resume i hpc hw hworkers hrun hflags =>
      obtain ⟨-, -, hdone⟩ := flags_eq_iff.mp hflags
      have hun : s.runPc.unwoken = true := by rw [hpc]; rfl
      refine ⟨fun _ => ?_, fun _ => ?_⟩
      · rw [hdone]
        exact h.stop hun
      · exact hupdate hun hworkers (h.moved hun (by rw [hw]; rfl))
  | advance hpc hadv hworkers hflags =>
      obtain ⟨-, -, hdone⟩ := flags_eq_iff.mp hflags
      refine ⟨fun hun => ?_, fun hun => ?_⟩
      · rw [hdone]
        exact h.stop (hpc ▸ hadv.unwoken hun)
      · rw [hworkers]
        exact h.failure (hpc ▸ hadv.unwoken hun)
  | proceed w hw hworkers hrun hflags =>
      obtain ⟨-, -, hdone⟩ := flags_eq_iff.mp hflags
      refine ⟨fun hun => ?_, fun hun => ?_⟩
      · rw [hdone]
        exact h.stop (hrun ▸ hun)
      · have hun' : s.runPc.unwoken = true := hrun ▸ hun
        exact hupdate hun' hworkers (h.proceeds hun' hw hok)
  | stopStore w hw hworkers hrun hflags =>
      obtain ⟨-, -, hdone⟩ := flags_eq_iff.mp hflags
      refine ⟨fun hun => ?_, fun hun => ?_⟩
      · rw [hdone]
        exact h.stop (hrun ▸ hun)
      · have hun' : s.runPc.unwoken = true := hrun ▸ hun
        exact hupdate hun' hworkers (h.moved hun' (by rw [hw]; rfl))
  | stopWake w hw hworkers hrun hflags =>
      refine hnever ?_
      rw [hrun]
      exact RunPc.unwoken_woken (by simpa [signalsInTime, hw] using hok)
  | failWake w hw hworkers hrun hflags =>
      refine hnever ?_
      rw [hrun]
      exact RunPc.unwoken_woken (by simpa [signalsInTime, hw] using hok)

/-- What is heard is not lost. -/
theorem Heard.noLostWakeup {n : ℕ} {s : State n} (h : s.Heard) : s.NoLostWakeup := by
  intro hpc
  have hun : s.runPc.unwoken = true := by rw [hpc]; rfl
  refine ⟨h.stop hun, fun w hw => ?_⟩
  by_contra he
  have hleaving := h.failure hun w he
  rw [hw] at hleaving
  exact Bool.false_ne_true hleaving

end State

/-- **No lost wake-up**, for any number of workers, in every run whose signals are given
in time. -/
theorem no_lost_wakeup {n : ℕ} {s : State n}
    (h : (service n).RunWhere (fun s l => s.signalsInTime l = true) (service n).init s) :
    s.NoLostWakeup := by
  have hall : s.Ordered ∧ s.Heard := by
    refine h.invariant (I := fun s => s.Ordered ∧ s.Heard)
      ⟨State.ordered_init n, fun hun => absurd hun Bool.false_ne_true,
        fun hun => absurd hun Bool.false_ne_true⟩ ?_
    rintro s l t ⟨ho, hh⟩ hok hstep
    have hturn := State.turns_of_step hstep
    exact ⟨ho.step hturn, hh.step ho hok hturn⟩
  exact hall.2.noLostWakeup

/-! ### The condition is exact -/

namespace State

/-- A worker that is about to signal a failure has stored an exception. -/
def FailureStored {n : ℕ} (s : State n) : Prop :=
  ∀ w o sz, (s.workers w).pc = .handling o sz .failing → (s.workers w).exceptionStorage ≠ none

/-- The step lemma of `FailureStored`: every turn keeps it. -/
theorem FailureStored.step {n : ℕ} {s t : State n} {l : Label n} (ho : s.Ordered)
    (h : s.FailureStored) (hturn : s.Turns l t) : t.FailureStored := by
  have hupdate : ∀ {w : Fin n} {v : Worker}, t.workers = Function.update s.workers w v →
      (∀ o sz, v.pc = .handling o sz .failing → v.exceptionStorage ≠ none) → t.FailureStored :=
    fun hworkers hv => forall_workers_update
      (P := fun _ v => ∀ o sz, v.pc = .handling o sz .failing → v.exceptionStorage ≠ none) h
      hworkers hv
  cases hturn with
  | quiet hworkers hrun hflags | enter hpc hworkers hrun hflags | start hpc hworkers hrun hflags
  | advance hpc hadv hworkers hflags =>
      intro w o sz hw
      rw [hworkers] at hw ⊢
      exact h w o sz hw
  | throw i hworkers hrun hflags hpc =>
      refine hupdate hworkers fun o sz hw => ?_
      have hserving : s.runPc.serving = true := ho.active i (by rw [hw]; rfl)
      exact absurd (hpc.symm.trans hserving) Bool.false_ne_true
  | resume i hpc hw hworkers hrun hflags =>
      exact hupdate hworkers fun o sz hv => WorkerPc.noConfusion hv
  | proceed w hw hworkers hrun hflags =>
      refine hupdate hworkers fun o sz hv => ?_
      cases hw with
      | take o sz hpc => cases hv
      | leave hpc => cases hv
      | fails choice e hpc => cases hv
      | returns hpc => cases hv
      | handle choice hpc hfrom hto =>
          obtain ⟨-, -, rfl⟩ := WorkerPc.handling.inj hv
          exact absurd rfl hto
      | @ret _ o sz e hpc =>
          cases e with
          | none => cases hv
          | some e => exact Option.some_ne_none e
      | @finish _ o sz exits hit hpc => cases exits <;> cases hv
  | stopStore w hw hworkers hrun hflags | stopWake w hw hworkers hrun hflags
  | failWake w hw hworkers hrun hflags =>
      exact hupdate hworkers fun o sz hv => by cases hv

/-- In every run a worker that is about to signal a failure has stored an exception. -/
theorem service_failureStored {n : ℕ} {s : State n} (h : (service n).Reachable s) :
    s.FailureStored := by
  have hall : s.Ordered ∧ s.FailureStored := by
    refine h.invariant (I := fun s => s.Ordered ∧ s.FailureStored)
      ⟨ordered_init n, fun _ _ _ hw => by cases hw⟩ ?_
    rintro s l t ⟨ho, hf⟩ hstep
    have hturn := turns_of_step hstep
    exact ⟨ho.step hturn, hf.step ho hturn⟩
  exact hall.2

/-- `t` is a state reached from `s` in which `run()` sleeps; no `stop()` has returned in
between, and the workers that had ended are as they were. -/
structure SleepsIn {n : ℕ} (s t : State n) : Prop where
  run : (service n).RunWhere (fun _ _ => True) s t
  asleep : t.runPc = .asleep
  stopDone : t.stopDone = s.stopDone
  exited : ∀ w, (s.workers w).pc = .exited → t.workers w = s.workers w

/-- The last step before the wait is taken to it. -/
theorem sleepsIn_of_beforeSleep {n : ℕ} {s : State n} (hab : s.aborted = none)
    (hpc : s.runPc = .beforeSleep) : s.SleepsIn { s with runPc := .asleep } :=
  ⟨run_of_runGo hab (by simp only [runGo, hpc]), rfl, rfl, fun _ _ => rfl⟩

/-- A step of the loop of `ResumeThread` changes no worker that has ended. -/
theorem SleepsIn.of_resume {n : ℕ} {s t : State n} {i : Fin n} (hab : s.aborted = none)
    (hpc : s.runPc = .resuming i)
    (h : ({ s.resume i with runPc := .resuming (i + 1) } : State n).SleepsIn t) :
    s.SleepsIn t := by
  have hdone : (s.resume i).stopDone = s.stopDone := by
    rw [resume]
    split <;> rfl
  have hexited : ∀ w, (s.workers w).pc = .exited →
      (s.resume i).workers w = s.workers w := by
    intro w hw
    rw [resume]
    split
    · rename_i hsuspended
      refine Function.update_of_ne ?_ _ _
      rintro rfl
      rw [hsuspended] at hw
      cases hw
    · rfl
  refine ⟨(run_of_runGo hab ?_).trans h.run, h.asleep, h.stopDone.trans hdone, fun w hw => ?_⟩
  · simp only [runGo, hpc, i.isLt, dite_true]
  · have hsame := hexited w hw
    exact (h.exited w ((congrArg Worker.pc hsame).trans hw)).trans hsame

/-- The loop of `ResumeThread` ends, by induction on the threads left. -/
theorem exists_sleepsIn_of_resuming {n : ℕ} (k : ℕ) {i : ℕ} {s : State n} (hk : n - i = k)
    (hab : s.aborted = none) (hpc : s.runPc = .resuming i) : ∃ t, s.SleepsIn t := by
  induction k generalizing i s with
  | zero =>
      have hi : ¬i < n := by omega
      have hrun : s.runGo = some { s with runPc := .beforeSleep } := by
        simp only [runGo, hpc, hi, dite_false]
      have h := sleepsIn_of_beforeSleep (s := { s with runPc := .beforeSleep }) hab rfl
      exact ⟨_, (run_of_runGo hab hrun).trans h.run, h.asleep, h.stopDone, h.exited⟩
  | succ k ih =>
      have hi : i < n := by omega
      have hab' : (s.resume ⟨i, hi⟩).aborted = none := by
        rw [resume]
        split <;> exact hab
      obtain ⟨t, ht⟩ := ih (i := i + 1)
        (s := { s.resume ⟨i, hi⟩ with runPc := .resuming (i + 1) }) (by omega) hab' rfl
      exact ⟨t, ht.of_resume (i := ⟨i, hi⟩) hab hpc⟩

/-- **`run()` comes to its wait** when it is scheduled alone. -/
theorem exists_sleepsIn {n : ℕ} {s : State n} (hab : s.aborted = none)
    (hun : s.runPc.unwoken = true) : ∃ t, s.SleepsIn t := by
  cases hpc : s.runPc with
  | resuming i => exact exists_sleepsIn_of_resuming _ rfl hab hpc
  | beforeSleep => exact ⟨_, sleepsIn_of_beforeSleep hab hpc⟩
  | asleep => exact ⟨s, .refl, hpc, rfl, fun _ _ => rfl⟩
  | outside | scanning i | starting | posting i | joining i | collecting i =>
      rw [hpc] at hun
      exact absurd hun Bool.false_ne_true

/-- A `stop()` that has returned before the wait is lost. -/
theorem lost_of_stopDone {n : ℕ} {s : State n} (hab : s.aborted = none)
    (hun : s.runPc.unwoken = true) (hdone : s.stopDone = true) :
    ∃ t, (service n).RunWhere (fun _ _ => True) s t ∧ ¬t.NoLostWakeup := by
  obtain ⟨t, ht⟩ := exists_sleepsIn hab hun
  refine ⟨t, ht.run, fun hnot => ?_⟩
  exact absurd ((hnot ht.asleep).1.symm.trans (ht.stopDone.trans hdone)) Bool.false_ne_true

/-- A worker that has ended with an exception before the wait is lost. -/
theorem lost_of_exited {n : ℕ} {s : State n} {w : Fin n} (hab : s.aborted = none)
    (hun : s.runPc.unwoken = true) (hw : (s.workers w).pc = .exited)
    (he : (s.workers w).exceptionStorage ≠ none) :
    ∃ t, (service n).RunWhere (fun _ _ => True) s t ∧ ¬t.NoLostWakeup := by
  obtain ⟨t, ht⟩ := exists_sleepsIn hab hun
  have hsame : t.workers w = s.workers w := ht.exited w hw
  refine ⟨t, ht.run, fun hnot => he ?_⟩
  rw [← hsame]
  exact (hnot ht.asleep).2 w (by rw [hsame, hw])

/-- **A worker whose callback failed has ended** two steps after its signal. -/
theorem exists_exited {n : ℕ} {s : State n} {w : Fin n} {o : OpId} {sz : ℕ}
    (hab : s.aborted = none) (hw : (s.workers w).pc = .handling o sz (.dropTask true)) :
    ∃ t, (service n).RunWhere (fun _ _ => True) s t ∧ t.aborted = none ∧ t.runPc = s.runPc ∧
      t.workers w = { s.workers w with pc := .exited } := by
  obtain ⟨t, ht⟩ : ∃ t, t = s.advance w o sz ((s.calls o).dropTask true) (.dropRaw true true) :=
    ⟨_, rfl⟩
  have hfirst : s.workerStep w .go = some t := by
    simp only [workerStep, hw, handlingStep, ht]
  have hpc : (t.workers w).pc = .handling o sz (.dropRaw true true) := by
    rw [ht]
    simp [advance, setPc, setWorker]
  have hsecond : t.workerStep w .go =
      some ((t.setCall o ((t.calls o).dropRaw true)).setPc w .exited) := by
    simp only [workerStep, hpc, handlingStep, if_true]
  have habt : t.aborted = none := by rw [ht]; exact hab
  refine ⟨_, (run_of_workerStep hab hfirst).trans (run_of_workerStep habt hsecond), habt, ?_, ?_⟩
  · rw [ht]
    rfl
  · rw [ht]
    simp [advance, setPc, setWorker, setCall]

/-- Before the wait there is nobody to wake. -/
theorem wakeAll_of_beforeWait {n : ℕ} {s : State n} (h : s.runPc.beforeWait = true) :
    s.wakeAll = s := by
  rw [wakeAll]
  refine if_neg fun hpc => ?_
  rw [hpc] at h
  exact Bool.false_ne_true h

end State

/-- Before its wait `run()` has not been woken. -/
theorem RunPc.unwoken_of_beforeWait {p : RunPc} (h : p.beforeWait = true) :
    p.unwoken = true := by
  cases p <;> first | rfl | exact absurd h Bool.false_ne_true

/-- **The condition is exact**: from every step of a reachable state that violates it there
is a run to a state in which the wake-up is lost. -/
theorem lost_of_late {n : ℕ} {s t : State n} {l : Label n} (hs : (service n).Reachable s)
    (hlate : s.signalsInTime l = false) (hstep : s.step l = some t) :
    ∃ u, (service n).RunWhere (fun _ _ => True) t u ∧ ¬u.NoLostWakeup := by
  have hab : s.aborted = none := State.aborted_of_step hstep
  unfold State.signalsInTime at hlate
  split at hlate
  · rename_i w
    have hworker : s.workerStep w .go = some t := by
      simpa [State.step, hab] using hstep
    split at hlate
    · rename_i o sz hw
      have hbefore : s.runPc.beforeWait = true := by simpa using hlate
      simp only [State.workerStep, hw, State.handlingStep,
        State.wakeAll_of_beforeWait hbefore] at hworker
      obtain rfl := Option.some.inj hworker
      exact State.lost_of_stopDone hab (RunPc.unwoken_of_beforeWait hbefore) rfl
    · rename_i o sz hw
      have hbefore : s.runPc.beforeWait = true := by simpa using hlate
      have hstored := State.service_failureStored hs w o sz hw
      simp only [State.workerStep, hw, State.handlingStep,
        State.wakeAll_of_beforeWait hbefore] at hworker
      obtain rfl := Option.some.inj hworker
      have hleaving : ((s.advance w o sz ((s.calls o).atStage (.dropTask true))
          (.dropTask true)).workers w).pc = .handling o sz (.dropTask true) := by
        simp [State.advance, State.setPc, State.setWorker]
      obtain ⟨u, hrun, habu, hpcu, hwu⟩ := State.exists_exited
        (s := s.advance w o sz ((s.calls o).atStage (.dropTask true)) (.dropTask true))
        hab hleaving
      obtain ⟨v, hrun', hlost⟩ := State.lost_of_exited (w := w) habu
        (by rw [hpcu]; exact RunPc.unwoken_of_beforeWait hbefore) (by rw [hwu])
        (by
          rw [hwu]
          simpa [State.advance, State.setPc, State.setWorker, State.setCall] using hstored)
      exact ⟨v, hrun.trans hrun', hlost⟩
    · rename_i hw
      simp only [Bool.or_eq_false_iff, Bool.not_eq_false'] at hlate
      obtain ⟨hstored, hun⟩ := hlate
      simp only [State.workerStep, hw, if_true] at hworker
      obtain rfl := Option.some.inj hworker
      refine State.lost_of_exited (w := w) hab hun ?_ ?_
      · simp [State.setPc, State.setWorker]
      · simpa [State.setPc, State.setWorker, Option.isNone_eq_false_iff,
          Option.isSome_iff_ne_none] using hstored
    · cases hlate
  · cases hlate

/-! ### Concrete runs -/

/-- The call of `run()` is woken by a callback that calls `stop()` while it sleeps. -/
theorem no_lost_wakeup_stop :
    ∃ s : State 1, (s.runPc = .posting 0 ∧ s.stopDone = true) ∧ s.NoLostWakeup := by
  obtain ⟨s, hrun, hs⟩ := Machine.exists_runWhere (M := service 1)
    (G := fun s l => s.signalsInTime l = true) (s := (service 1).init)
    (P := fun s => s.runPc = .posting 0 ∧ s.stopDone = true)
    (startUp ++ submitUpToIssue .read ++ submitUpToInsert ++ submitUpToReturn ++
      reachesCallback ++ callsStop) (by decide)
  exact ⟨s, hs, no_lost_wakeup hrun⟩

/-- **A lost wake-up**: the callback of an operation that was submitted before `run()` calls
`stop()` while `run()` is on its way to the wait. -/
theorem wakeup_lost :
    ¬∀ (n : ℕ) (s : State n), (service n).Reachable s → s.NoLostWakeup := by
  intro h
  obtain ⟨s, hrun, hs⟩ := Machine.exists_runWhere (M := service 1) (G := fun _ _ => True)
    (s := (service 1).init) (P := fun s => ¬s.NoLostWakeup)
    (submitUpToIssue .read ++ submitUpToInsert ++ submitUpToReturn ++ startUp.take 5 ++
      reachesCallback ++ callsStop ++ startUp.drop 5) (by decide)
  exact hs (h 1 s hrun)

end Netknot.Win32
