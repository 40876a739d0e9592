import Netknot.Unix.Service

/-!
# What Never Ends on Unix

The workers of a `UnixIOService` do not end and nobody signals `terminateNotifyConditionVar`.
So a `run()` that waits there comes back by a spurious wake-up only; a `stop()` that gets past
its guard joins the first worker for ever; and a worker that was not waiting yet when `run()`
signalled its `startCond` is not started any more.

## Main results

* `moves_of_step`: what a step of the service can do.
* `blocking`: `run()`, `stop()` and the workers that came too late, over whole runs.
-/

namespace Netknot.Unix

namespace State

variable {n : ℕ} {s t : State n}

/-! ### What a step can do -/

/-- **What a step does** when no exception is stored. -/
inductive Moves (s : State n) : Label n → State n → Prop
  | arrive {w : Fin n} (pc : (s.workers w).pc = .created) :
      Moves s (.worker w) (s.setWorker w { s.workers w with pc := .waiting })
  | wake {w : Fin n} (pc : (s.workers w).pc = .waiting) :
      Moves s (.worker w) (s.setWorker w { s.workers w with pc := .looping })
  | loop {w : Fin n} (pc : (s.workers w).pc = .looping) : Moves s (.worker w) s
  | guard (pc : s.runPc = .outside) (running : s.isRunning = true) :
      Moves s .call { s with aborted := true }
  | enter (pc : s.runPc = .outside) (idle : s.isRunning = false) :
      Moves s .call { s with runPc := .scanning 0 }
  | scan {i : ℕ} (pc : s.runPc = .scanning i) {next : RunPc}
      (hnext : next = .scanning (i + 1) ∨ next = .starting 0) :
      Moves s .run { s with runPc := next }
  | broadcast (i : Fin n) (pc : s.runPc = .starting i) :
      Moves s .run { s.broadcastStart i with runPc := .starting (i + 1) }
  | started {i : ℕ} (pc : s.runPc = .starting i) (all : n ≤ i) :
      Moves s .run { s with runPc := .beforeWait }
  | sleep (pc : s.runPc = .beforeWait) : Moves s .run { s with runPc := .asleep }
  | spurious (pc : s.runPc = .asleep) : Moves s .run { s with runPc := .collecting 0 }
  | collect {i : ℕ} (pc : s.runPc = .collecting i) {next : RunPc}
      (hnext : next = .collecting (i + 1) ∨ next = .leaving) :
      Moves s .run { s with runPc := next }
  | leave (pc : s.runPc = .leaving) :
      Moves s .run { s with isRunning := true, runPc := .outside, result := some none }
  | stopGuard {c : StopId} (pc : s.stops c = .idle) (idle : s.isRunning = false) :
      Moves s (.stop c) { s with aborted := true }
  | stopEnter {c : StopId} (pc : s.stops c = .idle) (running : s.isRunning = true) :
      Moves s (.stop c) (s.setStop c (.terminating 0))
  | terminate {c : StopId} (i : Fin n) (pc : s.stops c = .terminating i) :
      Moves s (.stop c) ((s.setWorker i { s.workers i with terminate := true }).setStop c
        (.terminating (i + 1)))
  | terminated {c : StopId} {i : ℕ} (pc : s.stops c = .terminating i) (all : n ≤ i) :
      Moves s (.stop c) (s.setStop c (.joining 0))
  | joined {c : StopId} {i : ℕ} (pc : s.stops c = .joining i) (all : n ≤ i) :
      Moves s (.stop c) (s.setStop c (.collecting 0))
  | stopCollect {c : StopId} {i : ℕ} (pc : s.stops c = .collecting i) {next : StopPc}
      (hnext : next = .collecting (i + 1) ∨ next = .clearing) :
      Moves s (.stop c) (s.setStop c next)
  | clear {c : StopId} (pc : s.stops c = .clearing) :
      Moves s (.stop c) ({ s with isRunning := false }.setStop c (.returned none))

/-- No worker has stored an exception. -/
def Storeless (s : State n) : Prop := ∀ w, (s.workers w).exceptionStorage = none

/-- A loop over the storages finds nothing to take. -/
theorem Storeless.takeException (h : s.Storeless) (i : Fin n) (next : RunPc) :
    s.takeException i next = { s with runPc := next } := by
  simp only [State.takeException, h i]

/-- A step of a worker makes one of the moves. -/
theorem moves_of_workerStep {w : Fin n} (hstep : s.workerStep w = some t) :
    s.Moves (.worker w) t := by
  unfold workerStep at hstep
  split at hstep
  · rename_i hpc
    obtain rfl := Option.some.inj hstep
    exact .arrive hpc
  · rename_i hpc
    obtain rfl := Option.some.inj hstep
    exact .wake hpc
  · rename_i hpc
    obtain rfl := Option.some.inj hstep
    exact .loop hpc

/-- A step of `run()` makes one of the moves. -/
theorem Storeless.moves_of_runStep (h : s.Storeless) (hstep : s.runStep = some t) :
    s.Moves .run t := by
  unfold runStep at hstep
  split at hstep
  · cases hstep
  · rename_i i hpc
    split at hstep <;> obtain rfl := Option.some.inj hstep
    · rw [h.takeException]
      exact .scan hpc (.inl rfl)
    · exact .scan hpc (.inr rfl)
  · rename_i i hpc
    split at hstep <;> obtain rfl := Option.some.inj hstep
    · exact .broadcast ⟨i, ‹_›⟩ hpc
    · exact .started hpc (Nat.le_of_not_lt ‹_›)
  · obtain rfl := Option.some.inj hstep
    exact .sleep ‹_›
  · obtain rfl := Option.some.inj hstep
    exact .spurious ‹_›
  · rename_i i hpc
    split at hstep <;> obtain rfl := Option.some.inj hstep
    · rw [h.takeException]
      exact .collect hpc (.inl rfl)
    · exact .collect hpc (.inr rfl)
  · obtain rfl := Option.some.inj hstep
    exact .leave ‹_›

/-- A step of a `stop()` makes one of the moves. -/
theorem Storeless.moves_of_stopStep (h : s.Storeless) {c : StopId}
    (hstep : s.stopStep c = some t) : s.Moves (.stop c) t := by
  unfold stopStep at hstep
  split at hstep
  · rename_i hpc
    split at hstep <;> obtain rfl := Option.some.inj hstep
    · exact .stopEnter hpc ‹_›
    · exact .stopGuard hpc (Bool.eq_false_iff.mpr ‹_›)
  · rename_i i hpc
    split at hstep <;> obtain rfl := Option.some.inj hstep
    · exact .terminate ⟨i, ‹_›⟩ hpc
    · exact .terminated hpc (Nat.le_of_not_lt ‹_›)
  · rename_i i hpc
    split at hstep
    · cases hstep
    · obtain rfl := Option.some.inj hstep
      exact .joined hpc (Nat.le_of_not_lt ‹_›)
  · rename_i i hpc
    split at hstep
    · rename_i hi
      rw [h ⟨i, hi⟩] at hstep
      obtain rfl := Option.some.inj hstep
      exact .stopCollect hpc (.inl rfl)
    · obtain rfl := Option.some.inj hstep
      exact .stopCollect hpc (.inr rfl)
  · rename_i hpc
    obtain rfl := Option.some.inj hstep
    exact .clear hpc
  · cases hstep

/-- **The inversion of a step** of a service whose storages are empty: it makes one of
the moves. -/
theorem Storeless.moves_of_step (h : s.Storeless) {l : Label n} (hstep : s.step l = some t) :
    s.Moves l t := by
  unfold step at hstep
  split at hstep
  · cases hstep
  cases l with
  | worker w => exact moves_of_workerStep hstep
  | call =>
      obtain ⟨hpc, hstep⟩ := Option.ite_none_right_eq_some.mp hstep
      split at hstep <;> obtain rfl := Option.some.inj hstep
      · exact .guard hpc ‹_›
      · exact .enter hpc (Bool.eq_false_iff.mpr ‹_›)
  | run => exact h.moves_of_runStep hstep
  | stop c => exact h.moves_of_stopStep hstep

@[simp] theorem setWorker_workers (s : State n) (w w' : Fin n) (v : Worker) :
    (s.setWorker w v).workers w' = if w' = w then v else s.workers w' :=
  Function.update_apply _ _ _ _

@[simp] theorem setStop_stops (s : State n) (c c' : StopId) (pc : StopPc) :
    (s.setStop c pc).stops c' = if c' = c then pc else s.stops c' :=
  Function.update_apply _ _ _ _

/-- A worker that keeps its storage keeps all of them empty. -/
theorem Storeless.setWorker (h : s.Storeless) {w : Fin n} {v : Worker}
    (hv : v.exceptionStorage = (s.workers w).exceptionStorage) : (s.setWorker w v).Storeless := by
  intro w'
  rw [setWorker_workers]
  split
  · rw [hv, h w]
  · exact h w'

/-- No code stores an exception. -/
theorem Storeless.step (h : s.Storeless) {l : Label n} (hstep : s.step l = some t) :
    t.Storeless := by
  cases h.moves_of_step hstep with
  | arrive pc | wake pc | terminate i pc => exact h.setWorker rfl
  | broadcast i pc =>
      unfold broadcastStart
      split
      · exact h.setWorker rfl
      · exact h
  | loop pc | guard pc running | enter pc idle | scan pc hnext | started pc all | sleep pc
  | spurious pc | collect pc hnext | leave pc | stopGuard pc idle | stopEnter pc running
  | terminated pc all | joined pc all | stopCollect pc hnext | clear pc => exact h

/-- No worker of the Unix backend ever holds an exception, in any run. -/
theorem storeless_of_run {G : State n → Label n → Prop}
    (h : (service n).RunWhere G (service n).init s) : s.Storeless :=
  h.invariant (fun _ => rfl) fun _ _ _ hs _ hstep => hs.step hstep

/-! ### `stop()` -/

/-- No `stop()` is past its first `pthread_join`. -/
def Joining (s : State n) : Prop :=
  ∀ c, s.stops c = .idle ∨ (∃ i, s.stops c = .terminating i) ∨ s.stops c = .joining 0

/-- A `stop()` moves, to no point past its first `pthread_join`. -/
theorem Joining.setStop (h : s.Joining) {c : StopId} {pc : StopPc}
    (hpc : pc = .idle ∨ (∃ i, pc = .terminating i) ∨ pc = .joining 0) :
    (s.setStop c pc).Joining := by
  intro c'
  rw [setStop_stops]
  split
  · exact hpc
  · exact h c'

/-- **With a worker to join**, no `stop()` gets past its first `pthread_join`, and so none
lowers the flag. -/
theorem Joining.step (hn : 0 < n) (hs : s.Storeless) (h : s.Joining) {l : Label n}
    (hstep : s.step l = some t) : t.Joining ∧ (s.isRunning = true → t.isRunning = true) := by
  cases hs.moves_of_step hstep with
  | stopEnter pc running => exact ⟨h.setStop (.inr (.inl ⟨0, rfl⟩)), id⟩
  | terminate i pc =>
      have hset : (s.setWorker i { s.workers i with terminate := true }).Joining := h
      exact ⟨hset.setStop (.inr (.inl ⟨_, rfl⟩)), id⟩
  | terminated pc all => exact ⟨h.setStop (.inr (.inr rfl)), id⟩
  | @joined c i pc all =>
      rcases h c with hidle | ⟨j, hterminating⟩ | hzero
      · cases pc.symm.trans hidle
      · cases pc.symm.trans hterminating
      · cases pc.symm.trans hzero
        exact absurd all (Nat.not_le_of_lt hn)
  | @stopCollect c i pc next hnext =>
      rcases h c with hidle | ⟨j, hterminating⟩ | hzero
      · cases pc.symm.trans hidle
      · cases pc.symm.trans hterminating
      · cases pc.symm.trans hzero
  | @clear c pc =>
      rcases h c with hidle | ⟨j, hterminating⟩ | hzero
      · cases pc.symm.trans hidle
      · cases pc.symm.trans hterminating
      · cases pc.symm.trans hzero
  | broadcast i pc =>
      unfold broadcastStart
      split <;> exact ⟨h, id⟩
  | leave pc => exact ⟨h, fun _ => rfl⟩
  | arrive pc | wake pc | loop pc | guard pc running | enter pc idle | scan pc hnext
  | started pc all | sleep pc | spurious pc | collect pc hnext | stopGuard pc idle => exact ⟨h, id⟩

/-! ### `run()` -/

/-- **The step condition**: nothing wakes up without having been signalled. -/
def signalled (s : State n) : Label n → Bool
  | .worker w => (s.workers w).pc ≠ .waiting
  | .run => s.runPc ≠ .asleep
  | _ => true

/-- `run()` has not come out of its wait, and all `stop()`s find the flag down. -/
structure Unreturned (s : State n) : Prop where
  pc : (∀ i, s.runPc ≠ .collecting i) ∧ s.runPc ≠ .leaving
  isRunning : s.isRunning = false
  result : s.result = none
  stops : ∀ c, s.stops c = .idle

/-- **Without a spurious wake-up** `run()` does not return. -/
theorem Unreturned.step (hs : s.Storeless) (h : s.Unreturned) {l : Label n}
    (hl : s.signalled l = true) (hstep : s.step l = some t) : t.Unreturned := by
  cases hs.moves_of_step hstep with
  | arrive pc | wake pc => exact ⟨h.pc, h.isRunning, h.result, h.stops⟩
  | loop pc => exact h
  | guard pc running | stopGuard pc idle => exact ⟨h.pc, h.isRunning, h.result, h.stops⟩
  | enter pc idle | started pc all | sleep pc =>
      exact ⟨⟨fun i => by simp, by simp⟩, h.isRunning, h.result, h.stops⟩
  | scan pc hnext =>
      refine ⟨?_, h.isRunning, h.result, h.stops⟩
      rcases hnext with rfl | rfl <;> exact ⟨fun i => by simp, by simp⟩
  | broadcast i pc =>
      unfold broadcastStart
      split <;> exact ⟨⟨fun i => by simp, by simp⟩, h.isRunning, h.result, h.stops⟩
  | spurious pc => exact absurd pc (by simpa [signalled] using hl)
  | collect pc hnext => exact absurd pc (h.pc.1 _)
  | leave pc => exact absurd pc h.pc.2
  | stopEnter pc running => exact absurd (running.symm.trans h.isRunning) (by decide)
  | terminate i pc => cases pc.symm.trans (h.stops _)
  | terminated pc all => cases pc.symm.trans (h.stops _)
  | joined pc all => cases pc.symm.trans (h.stops _)
  | stopCollect pc hnext => cases pc.symm.trans (h.stops _)
  | clear pc => cases pc.symm.trans (h.stops _)

/-! ### The workers -/

/-- `run()` has signalled worker `w`, and waits or will wait. -/
def Past (s : State n) (w : Fin n) : Prop :=
  (∃ i, s.runPc = .starting i ∧ (w : ℕ) < i) ∨ s.runPc = .beforeWait ∨ s.runPc = .asleep

/-- **Behind the signal** a worker is not started any more. -/
theorem Past.step (hs : s.Storeless) {w : Fin n} (h : s.Past w) {l : Label n}
    (hl : s.signalled l = true) (hstep : s.step l = some t) :
    t.Past w ∧ ((t.workers w).pc = .looping ↔ (s.workers w).pc = .looping) := by
  cases hs.moves_of_step hstep with
  | @arrive w' pc =>
      refine ⟨h, ?_⟩
      rw [setWorker_workers]
      split
      · rename_i heq
        subst heq
        exact iff_of_false (by simp) (by simp [pc])
      · exact Iff.rfl
  | wake pc => exact absurd pc (by simpa [signalled] using hl)
  | @terminate c i pc =>
      refine ⟨h, ?_⟩
      have hworkers : (((s.setWorker i { s.workers i with terminate := true }).setStop c
          (.terminating (i + 1))).workers w).pc = (s.workers w).pc := by
        rw [show ∀ (s : State n) pc, (s.setStop c pc).workers = s.workers from fun _ _ => rfl,
          setWorker_workers]
        split
        · rename_i heq
          rw [heq]
        · rfl
      rw [hworkers]
  | broadcast i pc =>
      rcases h with ⟨j, hj, hlt⟩ | hbefore | hasleep
      · cases pc.symm.trans hj
        refine ⟨.inl ⟨_, rfl, Nat.lt_succ_of_lt hlt⟩, ?_⟩
        have hne : w ≠ i := fun heq => absurd (heq ▸ hlt) (Nat.lt_irrefl _)
        unfold broadcastStart
        split
        · simp [hne]
        · exact Iff.rfl
      · cases pc.symm.trans hbefore
      · cases pc.symm.trans hasleep
  | started pc all => exact ⟨.inr (.inl rfl), Iff.rfl⟩
  | sleep pc => exact ⟨.inr (.inr rfl), Iff.rfl⟩
  | spurious pc => exact absurd pc (by simpa [signalled] using hl)
  | guard pc running | enter pc idle | scan pc hnext | collect pc hnext | leave pc =>
      rcases h with ⟨j, hj, -⟩ | hbefore | hasleep
      · cases pc.symm.trans hj
      · cases pc.symm.trans hbefore
      · cases pc.symm.trans hasleep
  | loop pc | stopGuard pc idle | stopEnter pc running | terminated pc all | joined pc all
  | stopCollect pc hnext | clear pc => exact ⟨h, Iff.rfl⟩

/-- **The signal** starts the worker that waits for it. -/
theorem looping_broadcast (s : State n) (w : Fin n) :
    ((s.broadcastStart w).workers w).pc = .looping ↔ (s.workers w).pc ≠ .created := by
  unfold broadcastStart
  cases hpc : (s.workers w).pc <;> simp [hpc]

end State

/-! ### Whole runs -/

/-- `run()` has not returned in a run without spurious wake-ups. -/
theorem unreturned_of_run {n : ℕ} {s : State n}
    (h : (service n).RunWhere (fun s l => s.signalled l = true) (service n).init s) :
    s.Unreturned := by
  have hall : s.Storeless ∧ s.Unreturned := by
    refine h.invariant (I := fun s => s.Storeless ∧ s.Unreturned)
      ⟨fun _ => rfl, ⟨fun _ => by simp [service, State.init], by simp [service, State.init]⟩, rfl,
        rfl, fun _ => rfl⟩ ?_
    rintro s l t ⟨hs, hu⟩ hl hstep
    exact ⟨hs.step hstep, hu.step hs hl hstep⟩
  exact hall.2

/-- No `stop()` gets past its first `pthread_join`, and the flag stays up. -/
theorem joining_of_run {n : ℕ} (hn : 0 < n) {G : State n → Label n → Prop} {s t : State n}
    (hs : s.Storeless ∧ s.Joining) (h : (service n).RunWhere G s t) :
    t.Joining ∧ (s.isRunning = true → t.isRunning = true) := by
  have hall : (t.Storeless ∧ t.Joining) ∧ (s.isRunning = true → t.isRunning = true) := by
    refine h.invariant
      (I := fun t => (t.Storeless ∧ t.Joining) ∧ (s.isRunning = true → t.isRunning = true))
      ⟨hs, id⟩ ?_
    rintro t l u ⟨⟨hstore, hjoin⟩, hflag⟩ - hstep
    obtain ⟨hjoin', hflag'⟩ := hjoin.step hn hstore hstep
    exact ⟨⟨hstore.step hstep, hjoin'⟩, fun hrunning => hflag' (hflag hrunning)⟩
  exact ⟨hall.1.2, hall.2⟩

/-- **What never returns.** Without a spurious wake-up, no `run()` does, and every `stop()` ends
the process. With them, and a worker to join, no `stop()` does: it is at its first
`pthread_join` for ever, and once a `run()` has returned the flag stays up, so that the next one
ends the process. -/
theorem never_returns (n : ℕ) :
    (∀ s : State n,
      (service n).RunWhere (fun s l => s.signalled l = true) (service n).init s →
        s.result = none ∧ s.isRunning = false ∧
          ∀ c t, s.step (.stop c) = some t → t.aborted = true) ∧
    (0 < n → ∀ s : State n, (service n).Reachable s →
      (∀ c e, s.stops c ≠ .returned e) ∧
        (s.isRunning = true → ∀ u, (service n).RunWhere (fun _ _ => True) s u →
          u.isRunning = true ∧ ∀ t, u.step .call = some t → t.aborted = true)) := by
  constructor
  · intro s h
    have hu : s.Unreturned := unreturned_of_run h
    refine ⟨hu.result, hu.isRunning, fun c t hstep => ?_⟩
    cases (State.storeless_of_run h).moves_of_step hstep with
    | stopGuard pc idle => rfl
    | stopEnter pc running => exact absurd (running.symm.trans hu.isRunning) (by decide)
    | terminate i pc => cases pc.symm.trans (hu.stops _)
    | terminated pc all => cases pc.symm.trans (hu.stops _)
    | joined pc all => cases pc.symm.trans (hu.stops _)
    | stopCollect pc hnext => cases pc.symm.trans (hu.stops _)
    | clear pc => cases pc.symm.trans (hu.stops _)
  · intro hn s h
    have hstore : s.Storeless := State.storeless_of_run h
    obtain ⟨hjoin, -⟩ := joining_of_run hn (s := (service n).init)
      ⟨fun _ => rfl, fun _ => .inl rfl⟩ h
    refine ⟨fun c e hc => ?_, fun hrunning u hu => ?_⟩
    · rcases hjoin c with hidle | ⟨i, hterminating⟩ | hzero
      · cases hc.symm.trans hidle
      · cases hc.symm.trans hterminating
      · cases hc.symm.trans hzero
    · have hup : u.isRunning = true := (joining_of_run hn ⟨hstore, hjoin⟩ hu).2 hrunning
      refine ⟨hup, fun t hstep => ?_⟩
      cases (State.storeless_of_run (h.trans hu)).moves_of_step hstep with
      | guard pc running => rfl
      | enter pc idle => exact absurd (hup.symm.trans idle) (by decide)

/-- One `run()` waits in its condition; and one worker is joined by a `stop()` while the flag is
up, where every call of `run()` ends the process. -/
theorem never_returns_one :
    (∃ s : State 1, s.runPc = .asleep ∧ s.result = none) ∧
    ∃ s : State 1, s.stops 0 = .joining 0 ∧ s.isRunning = true ∧
      ∀ t, s.step .call = some t → t.aborted = true := by
  constructor
  · obtain ⟨s, hrun, hpc⟩ := Machine.exists_runWhere (M := service 1)
      (G := fun s l => s.signalled l = true) (s := (service 1).init)
      (P := fun s => s.runPc = .asleep) [.worker 0, .call, .run, .run, .run, .run, .run]
      (by decide)
    exact ⟨s, hpc, ((never_returns 1).1 s hrun).1⟩
  · obtain ⟨s, hrun, hpc, hrunning⟩ := Machine.exists_runWhere (M := service 1)
      (G := fun _ _ => True) (s := (service 1).init)
      (P := fun s => s.stops 0 = .joining 0 ∧ s.isRunning = true)
      ([.worker 0, .call, .run, .run, .run, .run, .run] ++ [.run, .run, .run, .run] ++
        [.stop 0, .stop 0, .stop 0]) (by decide)
    exact ⟨s, hpc, hrunning, (((never_returns 1).2 Nat.one_pos s hrun).2 hrunning s .refl).2⟩

/-- **Which workers are started.** Worker `w` loops, at any time after `run()` signalled its
`startCond`, if and only if it had come to its wait by then; without a spurious wake-up. -/
theorem started_iff {n : ℕ} {s t u : State n} {w : Fin n} (h : (service n).Reachable s)
    (hpc : s.runPc = .starting w) (hstep : s.step .run = some t)
    (hrun : (service n).RunWhere (fun s l => s.signalled l = true) t u) :
    (u.workers w).pc = .looping ↔ (s.workers w).pc ≠ .created := by
  have hs : s.Storeless := State.storeless_of_run h
  have ht : (t.workers w).pc = .looping ↔ (s.workers w).pc ≠ .created := by
    cases hs.moves_of_step hstep with
    | broadcast i pc =>
        obtain rfl : w = i := Fin.ext (RunPc.starting.inj (hpc.symm.trans pc))
        exact s.looping_broadcast w
    | started pc all =>
        cases hpc.symm.trans pc
        exact absurd w.isLt (Nat.not_lt_of_le all)
    | scan pc hnext | sleep pc | spurious pc | collect pc hnext | leave pc =>
        cases hpc.symm.trans pc
  have hpast : t.Past w := by
    cases hs.moves_of_step hstep with
    | broadcast i pc =>
        obtain rfl : w = i := Fin.ext (RunPc.starting.inj (hpc.symm.trans pc))
        exact .inl ⟨_, rfl, Nat.lt_succ_self _⟩
    | started pc all => exact .inr (.inl rfl)
    | scan pc hnext | sleep pc | spurious pc | collect pc hnext | leave pc =>
        cases hpc.symm.trans pc
  have hall : (u.Storeless ∧ u.Past w) ∧
      ((u.workers w).pc = .looping ↔ (s.workers w).pc ≠ .created) := by
    refine hrun.invariant
      (I := fun u => (u.Storeless ∧ u.Past w) ∧
        ((u.workers w).pc = .looping ↔ (s.workers w).pc ≠ .created))
      ⟨⟨hs.step hstep, hpast⟩, ht⟩ ?_
    rintro u l v ⟨⟨hu, hp⟩, hiff⟩ hl hnext
    obtain ⟨hp', hsame⟩ := hp.step hu hl hnext
    exact ⟨⟨hu.step hnext, hp'⟩, hsame.trans hiff⟩
  exact hall.2

/-- A worker that comes to its wait behind the signal is not started. -/
theorem started_iff_late :
    ∃ u : State 1, (u.workers 0).pc = .waiting ∧ u.runPc = .asleep ∧
      ¬(u.workers 0).pc = .looping := by
  obtain ⟨s, hreach, t, hstep, hpc, hcreated, u, hexec, hlate⟩ :=
    Machine.exists_runWhere (M := service 1) (G := fun _ _ => True) (s := (service 1).init)
      (P := fun s => ∃ t ∈ s.step .run, s.runPc = .starting 0 ∧ (s.workers 0).pc = .created ∧
        ∃ u ∈ (service 1).execWhere (fun s l => s.signalled l = true) t [.run, .run, .worker 0],
          (u.workers 0).pc = .waiting ∧ u.runPc = .asleep) [.call, .run, .run] (by decide)
  have hrun := Machine.runWhere_of_execWhere hexec
  exact ⟨u, hlate.1, hlate.2, mt (started_iff hreach hpc hstep hrun).mp (not_not.mpr hcreated)⟩

end Netknot.Unix
