import Netknot.Win32.Control
import Netknot.Win32.Delivery

/-!
# What `run()` Reports

When `run()` returns, its caller may expect three things: an exception came back exactly
when some worker stored one, `_isRunning` is false, and no `exceptionStorage` still holds an
exception. The next `run()` relies on the last two: it terminates when it finds
`_isRunning` true, and its first loop returns what it finds stored.

The code gets there by one way only. `stop()` alone lowers the flag, so a `run()` that a
failed worker woke leaves it up; the last loop returns at the first exception it finds, so
what the other workers stored stays; and a `run()` that returns from its first loop hands
out an exception no worker of this run has stored.

Which workers stored an exception since `run()` was last called is history; no step reads it.

## Main results

* `run_reports_iff`: `run()` reports faithfully exactly when it was left by `stop()`, with at
  most one failed worker, and did not return from its first loop.
* `Reported.reenters`: then a later `run()` comes past its guard and its first loop.
* `failure_leaves_running`: a callback fails, and `run()` returns with `_isRunning` true.
-/

namespace Netknot.Win32

/-- The worker has left its loop, or is on its way out of it. -/
def Stage.exiting : Stage → Bool
  | .failing => true
  | .dropTask exits => exits
  | .dropRaw exits _ => exits
  | _ => false

/-- The worker will take no further packet. -/
def WorkerPc.exiting : WorkerPc → Bool
  | .handling _ _ stage => stage.exiting
  | .returning | .exited => true
  | .suspended | .waiting => false

/-- `run()` has set `_isRunning` and not returned yet. -/
def RunPc.started : RunPc → Bool
  | .collecting _ => true
  | p => p.serving

/-- A serving `run()` has started. -/
theorem RunPc.started_of_serving {p : RunPc} (h : p.serving = true) : p.started = true := by
  cases p <;> first | exact h | exact absurd h Bool.false_ne_true

/-- Within a run only `_isRunning = true` starts it. -/
theorem RunPc.Advances.started {n : ℕ} {workers : Fin n → Worker} {p q : RunPc}
    (h : p.Advances workers q) (hq : q.started = true) : p.started = true := by
  cases h <;> first | rfl | exact absurd hq Bool.false_ne_true

/-- `run()` advances from inside a run. -/
theorem RunPc.Advances.ne_outside {n : ℕ} {workers : Fin n → Worker} {p q : RunPc}
    (h : p.Advances workers q) : p ≠ .outside := by
  cases h <;> exact RunPc.noConfusion

namespace State

/-- **History**: the workers that have stored an exception since `run()` was last called. -/
def noteStored {n : ℕ} (stored : Fin n → Bool) (s : State n) (_ : Label n) (t : State n) :
    Fin n → Bool :=
  if s.runPc = .outside ∧ t.runPc ≠ .outside then fun _ => false
  else fun w => stored w ||
    ((s.workers w).exceptionStorage.isNone && (t.workers w).exceptionStorage.isSome)

/-- **What the caller of `run()` may expect** when it has returned. -/
structure Reported {n : ℕ} (t : State n) (stored : Fin n → Bool) : Prop where
  /-- It returned an exception if and only if some worker stored one. -/
  result : ∃ e, t.result = some e ∧ (e.isSome = true ↔ ∃ w, stored w = true)
  /-- The service is stopped. -/
  stopped : t.isRunning = false
  /-- No exception is left over. -/
  cleared : ∀ w, (t.workers w).exceptionStorage = none

end State

/-- The service with this history. -/
def reporting (n : ℕ) : Machine (State n × (Fin n → Bool)) (Label n) :=
  (service n).withHistory (fun _ => false) State.noteStored

namespace State

/-! ### Workers that go on have stored nothing -/

/-- The invariant: a worker that will take another packet has stored no exception. -/
def Clean {n : ℕ} (s : State n) : Prop :=
  ∀ w, (s.workers w).pc.exiting = false → (s.workers w).exceptionStorage = none

/-- A worker with a packet in hand: it stays on its way out, and what it stores sends
it there. -/
theorem clean_handling {n : ℕ} {s t : State n} {w : Fin n} {o : OpId} {sz : ℕ} {stage : Stage}
    {choice : WorkerChoice} (hclean : stage.exiting = false → (s.workers w).exceptionStorage = none)
    (hstep : s.handlingStep w o sz stage choice = some t) :
    (t.workers w).pc.exiting = false → (t.workers w).exceptionStorage = none := by
  cases handles_of_handlingStep hstep with
  | hold | dropRef | addTransferred | setDone | invoke | stopStore | stopWake =>
      simpa [advance, setPc, setWorker, setCall] using fun _ => hclean rfl
  | lookup =>
      rw [lookup]
      split <;> simpa [advance, setPc, setWorker, setCall] using fun _ => hclean rfl
  | stop =>
      rw [stopGuard]
      split
      · simpa [advance, setPc, setWorker, setCall] using fun _ => hclean rfl
      · exact fun _ => hclean rfl
  | ret e =>
      cases e <;> simp [callbackReturned, setWorker, setCall, WorkerPc.exiting, Stage.exiting]
  | fail => simp [advance, setPc, setWorker, setCall, WorkerPc.exiting, Stage.exiting]
  | dropTask exits =>
      cases exits with
      | true => simp [advance, setPc, setWorker, setCall, WorkerPc.exiting, Stage.exiting]
      | false => simpa [advance, setPc, setWorker, setCall] using fun _ => hclean rfl
  | dropRaw exits hit =>
      cases exits with
      | true => simp [setPc, setWorker, setCall, WorkerPc.exiting]
      | false => simpa [setPc, setWorker, setCall] using fun _ => hclean rfl

/-- **The step lemma of `Clean`**: every step keeps it. -/
theorem Clean.step {n : ℕ} {s t : State n} {l : Label n} (h : s.Clean)
    (hstep : s.step l = some t) : t.Clean := by
  have hupdate : ∀ {w : Fin n} {v : Worker}, t.workers = Function.update s.workers w v →
      (v.pc.exiting = false → v.exceptionStorage = none) → t.Clean := fun hworkers hv =>
    forall_workers_update (P := fun _ v => v.pc.exiting = false → v.exceptionStorage = none) h
      hworkers hv
  cases turns_of_step hstep with
  | quiet hworkers hrun hflags | enter hpc hworkers hrun hflags | start hpc hworkers hrun hflags
  | advance hpc hadv hworkers hflags =>
      rw [Clean, hworkers]
      exact h
  | throw i hworkers hrun hflags hpc => exact hupdate hworkers fun _ => rfl
  | resume i hpc hw hworkers hrun hflags =>
      exact hupdate hworkers fun _ => h i (by rw [hw]; rfl)
  | @proceed _ w choice v hw hworkers hrun hflags =>
      cases hw with
      | take o sz hpc => exact hupdate hworkers fun _ => h w (by rw [hpc]; rfl)
      | leave hpc | returns hpc | fails choice e hpc =>
          exact hupdate hworkers fun hexit => absurd hexit.symm Bool.false_ne_true
      | @handle _ o sz stage stage' choice hpc hfrom hto =>
          have hgo : s.handlingStep w o sz stage choice = some t := by
            rw [State.step] at hstep
            split at hstep
            · cases hstep
            · simpa only [workerStep, hpc] using hstep
          have hv := clean_handling (fun hexit => h w (by rw [hpc]; exact hexit)) hgo
          rw [hworkers, Function.update_self] at hv
          exact hupdate hworkers hv
      | @ret _ o sz e hpc =>
          refine hupdate hworkers fun hexit => ?_
          cases e with
          | none => rfl
          | some e => exact absurd hexit.symm Bool.false_ne_true
      | @finish _ o sz exits hit hpc =>
          refine hupdate hworkers fun hexit => ?_
          cases exits with
          | false => exact h w (by rw [hpc]; rfl)
          | true => exact absurd hexit.symm Bool.false_ne_true
  | stopStore w hw hworkers hrun hflags | stopWake w hw hworkers hrun hflags =>
      exact hupdate hworkers fun _ => h w (by rw [hw]; rfl)
  | failWake w hw hworkers hrun hflags =>
      exact hupdate hworkers fun hexit => absurd hexit.symm Bool.false_ne_true

/-! ### The history and the storages -/

/-- **The invariant**: while `run()` is in its first loop nothing was stored yet; from
`_isRunning = true` on the history and the storages agree; and in the last loop the flag is
what the `stop()` calls of this run made it. -/
structure Records {n : ℕ} (s : State n) (stored : Fin n → Bool) : Prop where
  entering : s.runPc.entering = true → ∀ w, stored w = false
  started : s.runPc.started = true → ∀ w, stored w = (s.workers w).exceptionStorage.isSome
  flag : ∀ i, s.runPc = .collecting i → s.isRunning = !s.stopStored
  collected : ∀ i, s.runPc = .collecting i → ∀ w : Fin n, w < i →
    (s.workers w).exceptionStorage = none

/-- The history stands when the step does not enter `run()` and no worker's storage changes. -/
theorem noteStored_of_eq {n : ℕ} {stored : Fin n → Bool} {s t : State n} (l : Label n)
    (henter : s.runPc = .outside → t.runPc = .outside)
    (hsame : ∀ w, (t.workers w).exceptionStorage = (s.workers w).exceptionStorage) :
    noteStored stored s l t = stored := by
  rw [noteStored, if_neg fun h => h.2 (henter h.1)]
  funext w
  rw [hsame]
  cases (s.workers w).exceptionStorage <;> simp

/-- Before the storages are looked at again, the history and the storages agree. -/
theorem Records.of_serving {n : ℕ} {t : State n} {stored : Fin n → Bool}
    (hserving : t.runPc.serving = true)
    (hstored : ∀ w, stored w = (t.workers w).exceptionStorage.isSome) : t.Records stored := by
  refine ⟨fun hp => ?_, fun _ => hstored, fun i hi => ?_, fun i hi => ?_⟩
  · cases hpc : t.runPc <;> rw [hpc] at hp hserving <;>
      first | exact absurd hp Bool.false_ne_true | exact absurd hserving Bool.false_ne_true
  · rw [hi] at hserving
    exact absurd hserving Bool.false_ne_true
  · rw [hi] at hserving
    exact absurd hserving Bool.false_ne_true

/-- A step of a worker keeps the history right when it only stores where nothing was stored. -/
theorem Records.of_worker {n : ℕ} {s t : State n} {l : Label n} {stored : Fin n → Bool}
    {w : Fin n} {v : Worker} (ho : s.Ordered) (h : s.Records stored)
    (hw : (s.workers w).pc.active = true)
    (hworkers : t.workers = Function.update s.workers w v)
    (hserving : t.runPc.serving = s.runPc.serving)
    (hv : v.exceptionStorage = (s.workers w).exceptionStorage ∨
      (s.workers w).exceptionStorage = none) :
    t.Records (noteStored stored s l t) := by
  have hs : s.runPc.serving = true := ho.active w hw
  refine .of_serving (hserving.trans hs) fun w' => ?_
  have henter : ¬(s.runPc = .outside ∧ t.runPc ≠ .outside) := by
    rintro ⟨hout, -⟩
    rw [hout] at hs
    exact Bool.false_ne_true hs
  have hstored : stored w' = (s.workers w').exceptionStorage.isSome :=
    h.started (RunPc.started_of_serving hs) w'
  rw [noteStored, if_neg henter, hstored, hworkers]
  by_cases hww : w' = w
  · subst hww
    rw [Function.update_self]
    rcases hv with hsame | hnone
    · rw [hsame]
      cases (s.workers w').exceptionStorage <;> rfl
    · rw [hnone]
      rfl
  · rw [Function.update_of_ne hww]
    cases (s.workers w').exceptionStorage <;> rfl

/-- **The step lemma of `Records`**: every step keeps it, with the history. -/
theorem Records.step {n : ℕ} {s t : State n} {l : Label n} {stored : Fin n → Bool}
    (ho : s.Ordered) (hc : s.Clean) (h : s.Records stored) (hturn : s.Turns l t) :
    t.Records (noteStored stored s l t) := by
  cases hturn with
  | quiet hworkers hrun hflags =>
      obtain ⟨hrunning, hstop, -⟩ := flags_eq_iff.mp hflags
      rw [noteStored_of_eq l (fun hout => hrun.trans hout) fun w => by rw [hworkers]]
      refine ⟨?_, ?_, ?_, ?_⟩ <;> rw [hrun]
      · exact h.entering
      · rw [hworkers]; exact h.started
      · rw [hrunning, hstop]; exact h.flag
      · rw [hworkers]; exact h.collected
  | enter hpc hworkers hrun hflags =>
      have hnew : noteStored stored s l t = fun _ => false := by
        rw [noteStored, if_pos ⟨hpc, by rw [hrun]; exact RunPc.noConfusion⟩]
      rw [hnew]
      refine ⟨fun _ _ => rfl, fun hp => ?_, fun i hi => ?_, fun i hi => ?_⟩
      · rw [hrun] at hp
        exact absurd hp Bool.false_ne_true
      · rw [hrun] at hi
        cases hi
      · rw [hrun] at hi
        cases hi
  | throw i hworkers hrun hflags hpc =>
      refine ⟨fun hp => ?_, fun hp => ?_, fun i hi => ?_, fun i hi => ?_⟩
      · rw [hrun] at hp
        exact absurd hp Bool.false_ne_true
      · rw [hrun] at hp
        exact absurd hp Bool.false_ne_true
      · rw [hrun] at hi
        cases hi
      · rw [hrun] at hi
        cases hi
  | start hpc hworkers hrun hflags =>
      rw [noteStored_of_eq l (fun hout => by rw [hpc] at hout; cases hout)
        fun w => by rw [hworkers]]
      refine .of_serving (by rw [hrun]; rfl) fun w => ?_
      rw [h.entering (by rw [hpc]; rfl), hworkers, ho.starting hpc]
      rfl
  | resume i hpc hw hworkers hrun hflags =>
      have hsame : ∀ w, (t.workers w).exceptionStorage = (s.workers w).exceptionStorage :=
        forall_workers_update (P := fun w v => v.exceptionStorage = (s.workers w).exceptionStorage)
          (fun _ => rfl) hworkers rfl
      rw [noteStored_of_eq l (fun hout => by rw [hpc] at hout; cases hout) hsame]
      refine .of_serving (by rw [hrun]; rfl) fun w => ?_
      rw [h.started (by rw [hpc]; rfl), hsame]
  | @advance _ _ p hpc hadv hworkers hflags =>
      obtain ⟨hrunning, hstop, -⟩ := flags_eq_iff.mp hflags
      rw [noteStored_of_eq l (fun hout => absurd (hpc.symm.trans hout) hadv.ne_outside)
        fun w => by rw [hworkers]]
      refine ⟨fun hp => ?_, fun hp => ?_, fun i hi => ?_, fun i hi w hw => ?_⟩
      · exact h.entering (hpc ▸ hadv.entering hp)
      · rw [hworkers]
        exact h.started (hpc ▸ hadv.started hp)
      · rw [hrunning, hstop]
        rw [hi] at hadv
        cases hadv with
        | joined hle => exact ho.flag (by rw [hpc]; rfl)
        | collect j hnone => exact h.flag _ hpc
      · rw [hworkers]
        rw [hi] at hadv
        cases hadv with
        | joined hle => exact absurd hw (Nat.not_lt_zero _)
        | collect j hnone =>
            rcases Nat.lt_succ_iff_lt_or_eq.mp hw with hlt | heq
            · exact h.collected _ hpc w hlt
            · rw [Fin.ext heq]
              exact hnone
  | proceed w hw hworkers hrun hflags =>
      refine h.of_worker ho hw.active hworkers (by rw [hrun]) ?_
      cases hw with
      | fails choice e hpc => exact .inr (hc w (by rw [hpc]; rfl))
      | ret e hpc => exact .inr (hc w (by rw [hpc]; rfl))
      | _ => exact .inl rfl
  | stopStore w hw hworkers hrun hflags =>
      exact h.of_worker ho (by rw [hw]; rfl) hworkers (by rw [hrun]) (.inl rfl)
  | stopWake w hw hworkers hrun hflags | failWake w hw hworkers hrun hflags =>
      exact h.of_worker ho (by rw [hw]; rfl) hworkers (by rw [hrun, RunPc.serving_woken])
        (.inl rfl)

end State

/-- **In every run** the history is right. -/
theorem reporting_records {n : ℕ} {p : State n × (Fin n → Bool)}
    (h : (reporting n).Reachable p) : p.1.Ordered ∧ p.1.Clean ∧ p.1.Records p.2 := by
  refine h.invariant (I := fun p => p.1.Ordered ∧ p.1.Clean ∧ p.1.Records p.2)
    ⟨State.ordered_init n, fun _ _ => rfl, ?_⟩ ?_
  · exact ⟨fun _ _ => rfl, fun hp => absurd hp Bool.false_ne_true, fun i hi => (by cases hi),
      fun i hi => (by cases hi)⟩
  · rintro ⟨s, stored⟩ l ⟨t, stored'⟩ ⟨ho, hc, hr⟩ hstep
    obtain ⟨hs, hstored⟩ := Machine.step_withHistory hstep
    dsimp only at hs hstored
    subst hstored
    have hturn := State.turns_of_step hs
    exact ⟨ho.step hturn, hc.step hs, hr.step ho hc hturn⟩

/-! ### The return -/

namespace State

/-- **How `run()` returns**: from one of its loops over the storages with what thread `i` has
stored, or behind the last one with nothing. -/
inductive ReturnsFrom {n : ℕ} (s : State n) : State n → Prop
  | throws (i : Fin n) (e : Exception) (hpc : s.runPc = .scanning i ∨ s.runPc = .collecting i)
      (he : (s.workers i).exceptionStorage = some e) :
      ReturnsFrom s { s.setWorker i { s.workers i with exceptionStorage := none } with
        runPc := .outside, result := some (some e) }
  | ends {i : ℕ} (hpc : s.runPc = .collecting i) (hle : n ≤ i) :
      ReturnsFrom s { s with runPc := .outside, result := some none }

/-- A turn of a loop over the storages returns only the exception it finds. -/
theorem returnsFrom_takeException {n : ℕ} {s : State n} {i : Fin n} {next : RunPc}
    (hpc : s.runPc = .scanning i ∨ s.runPc = .collecting i) (hnext : next ≠ .outside)
    (hret : (s.takeException i next).runPc = .outside) :
    s.ReturnsFrom (s.takeException i next) := by
  rw [takeException] at hret ⊢
  split at hret
  · exact absurd hret hnext
  · rename_i e he
    exact .throws i e hpc he

/-- **The inversion of a return**: it comes from the first loop or from the last one, with an
exception or behind its end. -/
theorem returnsFrom_of_step {n : ℕ} {s t : State n} (hstep : s.step (.run .go) = some t)
    (hret : t.runPc = .outside) : s.ReturnsFrom t := by
  rw [step] at hstep
  split at hstep
  · cases hstep
  · cases runs_of_runStep hstep with
    | scan i hpc => exact returnsFrom_takeException (.inl hpc) RunPc.noConfusion hret
    | collect i hpc => exact returnsFrom_takeException (.inr hpc) RunPc.noConfusion hret
    | collected hpc hall => exact .ends hpc hall
    | scanned hpc hall | start hpc | resume i hpc hw | skip i hpc hw | resumed hpc hall
    | sleep hpc | post i hpc | posted hpc hall | join i hpc hw | joined hpc hall => cases hret

/-- The return stores nothing. -/
theorem ReturnsFrom.noteStored {n : ℕ} {s t : State n} {stored : Fin n → Bool} {l : Label n}
    (h : s.ReturnsFrom t) : noteStored stored s l t = stored := by
  rw [State.noteStored, if_neg]
  · funext w
    cases h with
    | ends hpc hle => cases (s.workers w).exceptionStorage <;> simp
    | throws i e hpc he =>
        by_cases hw : w = i
        · subst hw
          simp [setWorker]
        · simp only [setWorker, Function.update_of_ne hw]
          cases (s.workers w).exceptionStorage <;> simp
  · rintro ⟨-, hin⟩
    cases h <;> exact hin rfl

section

variable {n : ℕ} {s : State n} {stored : Fin n → Bool}

/-- A return behind the last loop without an exception is a faithful report if and only if a
`stop()` has lowered the flag and at most one worker has stored an exception. -/
theorem Records.reported_ends_iff (h : s.Records stored) {i : ℕ}
    (hpc : s.runPc = .collecting i) (hle : n ≤ i) :
    Reported { s with runPc := .outside, result := some none } stored ↔
      s.stopStored = true ∧ ∀ w w', stored w = true → stored w' = true → w = w' := by
  have hflag : s.isRunning = !s.stopStored := h.flag _ hpc
  have hnone : ∀ w, (s.workers w).exceptionStorage = none := fun w =>
    h.collected _ hpc w (Nat.lt_of_lt_of_le w.isLt hle)
  have hstored : ∀ w, stored w = false := fun w => by
    rw [h.started (by rw [hpc]; rfl), hnone]
    rfl
  constructor
  · rintro ⟨-, hstopped, -⟩
    refine ⟨by simpa [hflag] using hstopped, fun w _ hw => ?_⟩
    exact absurd ((hstored w).symm.trans hw) Bool.false_ne_true
  · rintro ⟨hstop, -⟩
    refine ⟨⟨none, rfl, ?_⟩, ?_, hnone⟩
    · simp [hstored]
    · simp [hflag, hstop]

/-- A return from the first loop does not report faithfully: the exception is none of this run. -/
theorem Records.not_reported_entering (h : s.Records stored) (hentering : s.runPc.entering = true)
    {t : State n} {e : Exception} (hresult : t.result = some (some e)) : ¬t.Reported stored := by
  rintro ⟨⟨e', he', hiff⟩, -, -⟩
  obtain rfl : some e = e' := Option.some.inj (hresult.symm.trans he')
  obtain ⟨w, hw⟩ := hiff.mp rfl
  exact absurd ((h.entering hentering w).symm.trans hw) Bool.false_ne_true

/-- So is a return from the last loop with an exception: what the other workers stored stays. -/
theorem Records.reported_throws_iff (h : s.Records stored) {i : Fin n} {e : Exception}
    (hpc : s.runPc = .collecting i) (he : (s.workers i).exceptionStorage = some e) :
    Reported { s.setWorker i { s.workers i with exceptionStorage := none } with
        runPc := .outside, result := some (some e) } stored ↔
      s.stopStored = true ∧ ∀ w w', stored w = true → stored w' = true → w = w' := by
  have hflag : s.isRunning = !s.stopStored := h.flag _ hpc
  have hstored : ∀ w, stored w = (s.workers w).exceptionStorage.isSome :=
    h.started (by rw [hpc]; rfl)
  have hi : stored i = true := by rw [hstored, he]; rfl
  constructor
  · rintro ⟨-, hstopped, hcleared⟩
    have honly : ∀ w, stored w = true → w = i := by
      intro w hw
      by_contra hne
      have hkept := hcleared w
      simp only [setWorker, Function.update_of_ne hne] at hkept
      rw [hstored, hkept] at hw
      exact Bool.false_ne_true hw
    refine ⟨?_, fun w w' hw hw' => (honly w hw).trans (honly w' hw').symm⟩
    simpa [setWorker, hflag] using hstopped
  · rintro ⟨hstop, honly⟩
    refine ⟨⟨some e, rfl, iff_of_true rfl ⟨i, hi⟩⟩, ?_, fun w => ?_⟩
    · simp [setWorker, hflag, hstop]
    · by_cases hw : w = i
      · subst hw
        simp [setWorker]
      · simp only [setWorker, Function.update_of_ne hw]
        have hw' : stored w ≠ true := fun hst => hw (honly w i hst hi)
        rw [hstored] at hw'
        simpa using hw'

end

end State

/-- **`run()` reports faithfully** exactly when it returns from its last loop, a `stop()` of
this run has lowered the flag, and at most one worker has stored an exception. -/
theorem run_reports_iff {n : ℕ} {s t : State n} {stored stored' : Fin n → Bool}
    (hs : (reporting n).Reachable (s, stored))
    (hstep : (reporting n).step (s, stored) (.run .go) = some (t, stored'))
    (hret : t.runPc = .outside) :
    t.Reported stored' ↔ s.runPc.entering = false ∧ s.stopStored = true ∧
      ∀ w w', stored w = true → stored w' = true → w = w' := by
  obtain ⟨-, -, hr⟩ := reporting_records hs
  obtain ⟨hgo, hnote⟩ := Machine.step_withHistory hstep
  dsimp only at hr hgo hnote
  have hreturns : s.ReturnsFrom t := State.returnsFrom_of_step hgo hret
  obtain rfl : stored' = stored := hnote.trans hreturns.noteStored
  cases hreturns with
  | ends hpc hle =>
      rw [hr.reported_ends_iff hpc hle, hpc]
      exact (and_iff_right rfl).symm
  | throws i e hpc he =>
      rcases hpc with hpc | hpc
      · have hentering : s.runPc.entering = true := by rw [hpc]; rfl
        refine iff_of_false (hr.not_reported_entering hentering rfl) ?_
        rintro ⟨hnot, -, -⟩
        exact Bool.false_ne_true (hnot.symm.trans hentering)
      · rw [hr.reported_throws_iff hpc he, hpc]
        exact (and_iff_right rfl).symm

/-! ### The next run -/

namespace State

/-- The first loop of `run()` finds nothing, by induction on the threads left. -/
theorem exists_starting_of_scanning {n : ℕ} (k : ℕ) {i : ℕ} {s : State n} (hk : n - i = k)
    (hab : s.aborted = none) (hpc : s.runPc = .scanning i)
    (hnone : ∀ w, (s.workers w).exceptionStorage = none) :
    ∃ u, (service n).RunWhere (fun _ _ => True) s u ∧ u.runPc = .starting ∧
      u.aborted = none := by
  induction k generalizing i s with
  | zero =>
      have hi : ¬i < n := by omega
      have hgo : s.runGo = some { s with runPc := .starting } := by
        simp only [runGo, hpc, hi, dite_false]
      exact ⟨_, run_of_runGo hab hgo, rfl, hab⟩
  | succ k ih =>
      have hi : i < n := by omega
      have hgo : s.runGo = some { s with runPc := .scanning (i + 1) } := by
        simp only [runGo, hpc, hi, dite_true, takeException, hnone]
      obtain ⟨u, hrun, hu⟩ := ih (i := i + 1) (s := { s with runPc := .scanning (i + 1) })
        (by omega) hab rfl hnone
      exact ⟨u, (run_of_runGo hab hgo).trans hrun, hu⟩

end State

/-- **After a faithful report `run()` can be called again**: it comes past its guard and its
first loop. -/
theorem State.Reported.reenters {n : ℕ} {s : State n} {stored : Fin n → Bool}
    (h : s.Reported stored) (hab : s.aborted = none) (hpc : s.runPc = .outside) :
    ∃ u, (service n).RunWhere (fun _ _ => True) s u ∧ u.runPc = .starting ∧
      u.aborted = none := by
  have hcall : (service n).step s (.run .call) =
      some { s with runPc := .scanning 0, stopStored := false, stopDone := false } := by
    simp [service, State.step, hab, State.runStep, hpc, State.runCall, h.stopped]
  obtain ⟨u, hrun, hu⟩ := State.exists_starting_of_scanning n
    (s := { s with runPc := .scanning 0, stopStored := false, stopDone := false })
    (Nat.sub_zero n) hab rfl h.cleared
  exact ⟨u, (Machine.RunWhere.single trivial hcall).trans hrun, hu⟩

/-! ### Concrete runs -/

/-- A callback that calls `stop()` and succeeds: `run()` is about to return. -/
def stopsAndJoins : List (Label 1) :=
  runsCallback ++ callsStop ++ leavesCallback ++ runPosts ++ handlesPacket.take 1 ++
    runJoins ++ runPosts.take 1

/-- After a `stop()` and no failure `run()` reports faithfully. -/
theorem run_reports_stop :
    ∃ (t : State 1) (stored : Fin 1 → Bool), t.runPc = .outside ∧ t.Reported stored := by
  obtain ⟨p, hrun, q, hstep, hret, hin, hstop⟩ := Machine.exists_runWhere (M := reporting 1)
    (G := fun _ _ => True) (s := (reporting 1).init)
    (P := fun p => ∃ q ∈ (reporting 1).step p (.run .go), q.1.runPc = .outside ∧
      p.1.runPc.entering = false ∧ p.1.stopStored = true) stopsAndJoins (by decide)
  exact ⟨q.1, q.2, hret, (run_reports_iff hrun hstep hret).mpr
    ⟨hin, hstop, fun w w' _ _ => Subsingleton.elim w w'⟩⟩

/-- **A failed callback leaves `_isRunning` up**: `run()` returns its exception, and a later
`run()` will terminate. -/
theorem failure_leaves_running :
    ¬∀ (n : ℕ) (s t : State n) (stored stored' : Fin n → Bool),
      (reporting n).Reachable (s, stored) →
      (reporting n).step (s, stored) (.run .go) = some (t, stored') → t.runPc = .outside →
      t.Reported stored' := by
  intro h
  obtain ⟨p, hrun, q, hstep, hret, hrunning⟩ := Machine.exists_runWhere (M := reporting 1)
    (G := fun _ _ => True) (s := (reporting 1).init)
    (P := fun p => ∃ q ∈ (reporting 1).step p (.run .go), q.1.runPc = .outside ∧
      q.1.isRunning = true) (runsCallback ++ failsCallback ++ runPosts ++ runJoins) (by decide)
  exact absurd ((h 1 p.1 q.1 p.2 q.2 hrun hstep hret).stopped.symm.trans hrunning)
    Bool.false_ne_true

end Netknot.Win32
