import Netknot.Lib.Ranking
import Netknot.Win32.Drain

/-!
# Progress of the Workers

How long the threads of the service can go on before a packet of the queue is taken, and
before `run()`, once it has posted its packets, returns. The queue is first in, first out, a
worker is done with a packet after fourteen steps, and a callback calls `stop()` once at most,
for `stop()` clears the flag it is guarded by. So both are counted in advance, from the
place of the packet in the queue and the points the workers are at; submit calls and
completions that come in the meantime change nothing.

A callback is taken to return. `GetQueuedCompletionStatus` may fail, but no thread needs it to.

## Main results

* `State.load_lt_worker`, `State.load_le_step`: a worker lowers the load of the service, and no
  other step raises it.
* `completion_taken`: the packet of a completed operation is taken after a bounded number of
  worker steps, as long as a worker is left.
* `shutdown_returns`: when all its packets are posted, `run()` returns after a bounded number
  of steps of its threads.
-/

namespace Netknot.Win32

/-! ### What is left to do -/

/-- How many steps a worker has before it, from a stage on, until it waits again or has
ended. `running` is the flag `stop()` is guarded by. -/
def Stage.cost (running : Bool) : Stage → ℕ
  | .dequeued => 15
  | .locked => 14
  | .removed => 13
  | .unlocked => 12
  | .counted => 11
  | .marked => 10
  | .callback => if running then 9 else 6
  | .stopStore => 8
  | .stopWake => 7
  | .failing => 5
  | .dropTask _ => 4
  | .dropRaw _ _ => 3

/-- How many steps a worker has before it without another packet of an operation. -/
def WorkerPc.cost (running : Bool) : WorkerPc → ℕ
  | .suspended | .waiting => 2
  | .handling _ _ stage => stage.cost running
  | .returning => 1
  | .exited => 0

/-- A worker that no callback keeps does not ask for the flag. -/
theorem WorkerPc.cost_of_not_active {pc : WorkerPc} (h : pc.active = false) (b b' : Bool) :
    pc.cost b = pc.cost b' := by
  cases pc with
  | suspended | waiting | returning | exited => rfl
  | handling o sz stage => cases h

/-- Clearing the flag makes no worker longer. -/
theorem WorkerPc.cost_mono {b b' : Bool} (h : b = true → b' = true) (pc : WorkerPc) :
    pc.cost b ≤ pc.cost b' := by
  cases pc with
  | suspended | waiting | returning | exited => exact Nat.le_refl _
  | handling o sz stage =>
      cases b with
      | true =>
          rw [h rfl]
      | false => cases stage <;> cases b' <;> simp [cost, Stage.cost]

/-- A worker has fifteen steps before it at most. -/
theorem WorkerPc.cost_le (b : Bool) (pc : WorkerPc) : pc.cost b ≤ 15 := by
  cases pc with
  | suspended | waiting | returning | exited => simp [cost]
  | handling o sz stage => cases stage <;> cases b <;> simp [cost, Stage.cost]

namespace State

/-- **The load** of the service up to the last packet of the queue that `test` accepts: fourteen
steps for each packet, and what the workers have before them. -/
def load {n : ℕ} (test : Packet → Bool) (s : State n) : ℕ :=
  if s.aborted.isSome then 0
  else 1 + (14 * Machine.untilLast test s.queue + ∑ w, (s.workers w).pc.cost s.isRunning)

/-- The load counts one for the process, and what the queue and the workers have before them. -/
theorem load_of_not_aborted {n : ℕ} {test : Packet → Bool} {s : State n}
    (h : s.aborted = none) : s.load test =
      1 + (14 * Machine.untilLast test s.queue + ∑ w, (s.workers w).pc.cost s.isRunning) := by
  rw [load, h]
  rfl

/-- A process that has ended has no load. -/
theorem load_of_aborted {n : ℕ} {test : Packet → Bool} {s : State n}
    (h : s.aborted ≠ none) : s.load test = 0 := by
  rw [load, if_pos (Option.isSome_iff_ne_none.mpr h)]

/-- The load has this bound, wherever the workers are. -/
theorem load_le {n : ℕ} (test : Packet → Bool) (s : State n) :
    s.load test ≤ 1 + (14 * Machine.untilLast test s.queue + 15 * n) := by
  rw [load]
  split
  · exact Nat.zero_le _
  · have hsum : ∑ w, (s.workers w).pc.cost s.isRunning ≤ ∑ _w : Fin n, 15 :=
      Finset.sum_le_sum fun w _ => WorkerPc.cost_le _ _
    rw [Finset.sum_const_nat (fun _ _ => rfl), Finset.card_univ, Fintype.card_fin] at hsum
    omega

/-- **A step that adds nothing**: no worker gets longer, and the packet no later. -/
theorem load_le_of {n : ℕ} {test : Packet → Bool} {s t : State n} (hab : s.aborted = none)
    (hqueue : Machine.untilLast test t.queue ≤ Machine.untilLast test s.queue)
    (hworkers : ∀ w, (t.workers w).pc.cost t.isRunning ≤ (s.workers w).pc.cost s.isRunning) :
    t.load test ≤ s.load test := by
  cases hend : t.aborted with
  | some reason =>
      rw [load_of_aborted (s := t) (by rw [hend]; exact Option.some_ne_none reason)]
      exact Nat.zero_le _
  | none =>
      have hsum : ∑ w, (t.workers w).pc.cost t.isRunning ≤
          ∑ w, (s.workers w).pc.cost s.isRunning :=
        Finset.sum_le_sum fun w _ => hworkers w
      rw [load_of_not_aborted hab, load_of_not_aborted hend]
      omega

/-- A step that ends the process takes the whole load away. -/
theorem load_lt_of_abort {n : ℕ} {test : Packet → Bool} {s t : State n} (hab : s.aborted = none)
    (h : t.aborted ≠ none) : t.load test < s.load test := by
  rw [load_of_aborted h, load_of_not_aborted hab]
  omega

/-- **A step of a worker** lowers the load when it brings this worker nearer to its end, or the
packet nearer to the head. -/
theorem load_lt_of {n : ℕ} {test : Packet → Bool} {s t : State n} {w : Fin n} {v : Worker}
    (hab : s.aborted = none) (hworkers : t.workers = Function.update s.workers w v)
    (hrunning : t.isRunning = true → s.isRunning = true)
    (hlt : 14 * Machine.untilLast test t.queue + v.pc.cost t.isRunning <
      14 * Machine.untilLast test s.queue + (s.workers w).pc.cost s.isRunning) :
    t.load test < s.load test := by
  cases hend : t.aborted with
  | some reason => exact load_lt_of_abort hab (by rw [hend]; exact Option.some_ne_none reason)
  | none =>
      have hsum := Machine.sum_add_le_of_ne (f := fun w => (s.workers w).pc.cost s.isRunning)
        (g := fun w => (t.workers w).pc.cost t.isRunning) w fun w' hw' => by
          rw [hworkers, Function.update_of_ne hw']
          exact WorkerPc.cost_mono hrunning _
      have hself : (t.workers w).pc.cost t.isRunning = v.pc.cost t.isRunning := by
        rw [hworkers, Function.update_self]
      rw [load_of_not_aborted hab, load_of_not_aborted hend]
      omega

/-! ### A step of a worker -/

/-- A worker lowers the load when it goes on with its packet. -/
theorem load_lt_advance {n : ℕ} {test : Packet → Bool} {s s' : State n} {w : Fin n} {o : OpId}
    {sz : ℕ} {stage stage' : Stage} {c : Call} (hab : s.aborted = none)
    (hw : (s.workers w).pc = .handling o sz stage) (hqueue : s'.queue = s.queue)
    (hworkers : s'.workers = s.workers) (hrunning : s'.isRunning = true → s.isRunning = true)
    (hcost : stage'.cost s'.isRunning < stage.cost s.isRunning) :
    (s'.advance w o sz c stage').load test < s.load test := by
  have hset : (s'.advance w o sz c stage').workers =
      Function.update s.workers w { s.workers w with pc := .handling o sz stage' } := by
    rw [← hworkers]
    rfl
  refine load_lt_of hab hset hrunning ?_
  have hsame : (s'.advance w o sz c stage').queue = s.queue := hqueue
  rw [hsame, hw]
  exact Nat.add_lt_add_left hcost _

@[simp] theorem wakeAll_isRunning {n : ℕ} (s : State n) :
    s.wakeAll.isRunning = s.isRunning := by
  rw [wakeAll]
  split <;> rfl

/-- **A worker with a packet in hand** comes nearer to its end. It goes back to an earlier
stage once, when `stop()` returns to the callback; the flag is cleared then. -/
theorem load_lt_handling {n : ℕ} {test : Packet → Bool} {s t : State n} {w : Fin n} {o : OpId}
    {sz : ℕ} {stage : Stage} {choice : WorkerChoice} (hab : s.aborted = none)
    (hw : (s.workers w).pc = .handling o sz stage)
    (hstopped : stage = .stopWake → s.isRunning = false)
    (hstep : s.handlingStep w o sz stage choice = some t) : t.load test < s.load test := by
  cases handles_of_handlingStep hstep with
  | hold | dropRef | addTransferred | setDone =>
      exact load_lt_advance hab hw rfl rfl id (Nat.lt_succ_self _)
  | invoke =>
      refine load_lt_advance hab hw rfl rfl id ?_
      cases s.isRunning <;> simp [Stage.cost]
  | lookup =>
      rw [lookup]
      split
      · exact load_lt_advance hab hw rfl rfl id (Nat.lt_succ_self _)
      · exact load_lt_advance hab hw rfl rfl id (by simp [Stage.cost])
  | stop =>
      rw [stopGuard]
      split
      · rename_i hrunning
        exact load_lt_advance hab hw rfl rfl id (by simp [Stage.cost, hrunning])
      · exact load_lt_of_abort hab (Option.some_ne_none _)
  | stopStore =>
      refine load_lt_advance hab hw rfl rfl ?_ (by simp [Stage.cost])
      exact fun h => absurd h Bool.false_ne_true
  | stopWake =>
      have hcleared : s.wakeAll.isRunning = false := s.wakeAll_isRunning.trans (hstopped rfl)
      refine load_lt_advance hab hw s.wakeAll_queue s.wakeAll_workers (fun h => ?_) ?_
      · exact absurd (hcleared.symm.trans h) Bool.false_ne_true
      · simp [Stage.cost, hstopped rfl]
  | ret e =>
      refine load_lt_of hab rfl id (Nat.add_lt_add_left ?_ _)
      rw [hw]
      cases e <;> cases s.isRunning <;> simp [WorkerPc.cost, Stage.cost]
  | fail =>
      refine load_lt_advance hab hw s.wakeAll_queue s.wakeAll_workers (fun h => ?_)
        (by simp [Stage.cost])
      exact s.wakeAll_isRunning ▸ h
  | dropTask exits => exact load_lt_advance hab hw rfl rfl id (Nat.lt_succ_self _)
  | dropRaw exits hit =>
      refine load_lt_of hab rfl id (Nat.add_lt_add_left ?_ _)
      rw [hw]
      cases exits <;> simp [WorkerPc.cost, Stage.cost]

/-- A worker that `GetQueuedCompletionStatus` refused lowers the load, since it is on its
way out. -/
theorem load_lt_portError {n : ℕ} {test : Packet → Bool} {s s' : State n} {w : Fin n}
    (code : ℕ) (allocated : Bool) (hab : s.aborted = none) (hw : (s.workers w).pc = .waiting)
    (hqueue : Machine.untilLast test s'.queue ≤ Machine.untilLast test s.queue)
    (hworkers : s'.workers = s.workers) (hrunning : s'.isRunning = s.isRunning) :
    (s'.portError w code allocated).load test < s.load test := by
  rw [portError]
  split
  · exact load_lt_of_abort hab (Option.some_ne_none _)
  · rename_i e _
    have hset : (s'.setWorker w { pc := .returning, exceptionStorage := e }).workers =
        Function.update s.workers w { pc := .returning, exceptionStorage := e } := by
      rw [← hworkers]
      rfl
    refine load_lt_of hab hset (fun h => hrunning ▸ h) ?_
    rw [hw]
    exact Nat.add_lt_add_of_le_of_lt (Nat.mul_le_mul_left 14 hqueue) (Nat.lt_succ_self 1)

/-- **A worker at the head of its loop lowers the load.** The packet of an operation brings it
work, and takes the last packet one place nearer. -/
theorem load_lt_waiting {n : ℕ} {test : Packet → Bool} {s t : State n} {w : Fin n}
    {choice : WorkerChoice} (hab : s.aborted = none) (hw : (s.workers w).pc = .waiting)
    (hany : s.queue.any test = true) (hstep : s.waitingStep w choice = some t) :
    t.load test < s.load test := by
  cases takes_of_waitingStep hstep with
  | @zero rest hqueue =>
      refine load_lt_of hab rfl id ?_
      rw [hw, hqueue]
      exact Nat.add_lt_add_of_le_of_lt (Nat.mul_le_mul_left 14 Machine.untilLast_le_cons)
        (Nat.zero_lt_succ 1)
  | @op o sz rest hqueue =>
      refine load_lt_of hab rfl id ?_
      rw [hqueue] at hany
      rw [hw, hqueue, Machine.untilLast_cons hany]
      simp only [setPc, setWorker, setCall, WorkerPc.cost, Stage.cost]
      omega
  | @opFailed o code rest hqueue allocated =>
      refine load_lt_portError _ _ hab hw ?_ rfl rfl
      rw [hqueue]
      exact Machine.untilLast_le_cons
  | portFailed code allocated =>
      exact load_lt_portError _ _ hab hw (Nat.le_refl _) rfl rfl

/-- **A worker lowers the load** with every step. -/
theorem load_lt_worker {n : ℕ} {test : Packet → Bool} {s t : State n} {w : Fin n}
    {choice : WorkerChoice} (hab : s.aborted = none)
    (hstopped : ∀ o sz, (s.workers w).pc = .handling o sz .stopWake → s.isRunning = false)
    (hany : (s.workers w).pc = .waiting → s.queue.any test = true)
    (hstep : s.workerStep w choice = some t) : t.load test < s.load test := by
  rw [workerStep] at hstep
  split at hstep
  · rename_i hw
    exact load_lt_waiting hab hw (hany hw) hstep
  · rename_i o sz stage hw
    exact load_lt_handling hab hw (fun hstage => hstopped o sz (hstage ▸ hw)) hstep
  · rename_i hw
    obtain ⟨-, rfl⟩ := Option.ite_none_right_eq_some.mp hstep |>.imp_right Option.some.inj
    refine load_lt_of hab rfl id ?_
    rw [hw]
    exact Nat.add_lt_add_left Nat.zero_lt_one _
  · cases hstep
  · cases hstep

/-! ### The other steps -/

/-- A turn of a loop over the storages adds nothing to the load. -/
theorem load_le_takeException {n : ℕ} {test : Packet → Bool} {s : State n} {i : Fin n}
    {next : RunPc} (hab : s.aborted = none) :
    (s.takeException i next).load test ≤ s.load test := by
  rw [takeException]
  split
  · exact load_le_of hab (Nat.le_refl _) fun _ => Nat.le_refl _
  · refine load_le_of hab (Nat.le_refl _) fun w => ?_
    by_cases hw : w = i
    · rw [hw]
      simp [setWorker]
    · simp [setWorker, Function.update_of_ne hw]

/-- **A step of `run()`** does not raise the load, except by the packets it posts. When it sets
the flag, no worker is active. -/
theorem load_le_run {n : ℕ} {test : Packet → Bool} {s t : State n} {choice : RunChoice}
    (ho : s.Ordered) (hab : s.aborted = none)
    (hpost : ∀ i : Fin n, s.runPc = .posting i → test .zero = false)
    (hstep : s.runStep choice = some t) : t.load test ≤ s.load test := by
  cases runs_of_runStep hstep with
  | scan i hpc | collect i hpc => exact load_le_takeException hab
  | start hpc =>
      refine load_le_of hab (Nat.le_refl _) fun w => ?_
      have hidle : (s.workers w).pc.active = false := by
        rw [← Bool.not_eq_true]
        intro hw
        have hserving := ho.active w hw
        rw [hpc] at hserving
        exact Bool.false_ne_true hserving
      exact Nat.le_of_eq (WorkerPc.cost_of_not_active hidle _ _)
  | resume i hpc hw =>
      refine load_le_of hab (Nat.le_refl _) fun w => ?_
      by_cases hi : w = i
      · rw [hi, hw]
        simp [setPc, setWorker, WorkerPc.cost]
      · simp [setPc, setWorker, Function.update_of_ne hi]
  | post i hpc =>
      exact load_le_of hab (Nat.le_of_eq (Machine.untilLast_append (hpost i hpc)))
        fun _ => Nat.le_refl _
  | guard hpc hrunning | enter hpc hidle | spurious hpc | scanned hpc hall | skip i hpc hw
  | resumed hpc hall | sleep hpc | posted hpc hall | join i hpc hw | joined hpc hall
  | collected hpc hall => exact load_le_of hab (Nat.le_refl _) fun _ => Nat.le_refl _

/-- A packet that is not looked for adds nothing to the load when it comes to the queue. -/
theorem load_le_enqueue {n : ℕ} {test : Packet → Bool} {s : State n} {o : OpId} {c : Call}
    {p : Packet} (hab : s.aborted = none) (hp : test p = false) :
    ({ s.setCall o c with queue := s.queue ++ [p] } : State n).load test ≤ s.load test :=
  load_le_of hab (Nat.le_of_eq (Machine.untilLast_append hp)) fun _ => Nat.le_refl _

/-- **What raises the load**: a packet that is looked for, and nothing else. -/
structure Foreign {n : ℕ} (test : Packet → Bool) (s : State n) : Prop where
  post : ∀ i : Fin n, s.runPc = .posting i → test .zero = false
  complete : ∀ o sz, (s.calls o).kernelPending = true → test (.op o sz) = false
  completeFailed : ∀ o code, (s.calls o).kernelPending = true → test (.opFailed o code) = false

/-- **Every step** that is not a worker's leaves the load. -/
theorem load_le_step {n : ℕ} {test : Packet → Bool} {s t : State n} {l : Label n}
    (ho : s.Ordered) (hforeign : s.Foreign test) (hl : ∀ w choice, l ≠ .worker w choice)
    (hstep : s.step l = some t) : t.load test ≤ s.load test := by
  obtain ⟨hab, hgo⟩ := Option.ite_none_left_eq_some.mp hstep
  replace hab : s.aborted = none := Option.not_isSome_iff_eq_none.mp hab
  cases l with
  | submit o choice =>
      obtain ⟨a, -, rfl⟩ := Option.map_eq_some_iff.mp hgo
      cases a <;> exact load_le_of hab (Nat.le_refl _) fun _ => Nat.le_refl _
  | complete o sz =>
      obtain ⟨hp, rfl⟩ := Option.ite_none_right_eq_some.mp hgo |>.imp_right Option.some.inj
      exact load_le_enqueue hab (hforeign.complete o sz hp)
  | completeFailed o code =>
      obtain ⟨hp, rfl⟩ := Option.ite_none_right_eq_some.mp hgo |>.imp_right Option.some.inj
      exact load_le_enqueue hab (hforeign.completeFailed o code hp)
  | worker w choice => exact absurd rfl (hl w choice)
  | run choice => exact load_le_run ho hab hforeign.post hgo

end State

/-! ### Where the workers are -/

/-- The packet belongs to operation `o`. -/
def Packet.of (o : OpId) (p : Packet) : Bool := p.op? = some o

/-- `GetQueuedCompletionStatus` returns `FALSE` without a packet. -/
def WorkerChoice.onPort : WorkerChoice → Bool
  | .portFailed _ _ => true
  | _ => false

/-- The worker is in `stop()`, behind `_isRunning = false`. -/
def WorkerPc.behindStore : WorkerPc → Bool
  | .handling _ _ .stopWake => true
  | _ => false

namespace State

/-- A worker in `stop()`, behind the store, has cleared the flag. -/
def Stored {n : ℕ} (s : State n) : Prop :=
  ∀ w, (s.workers w).pc.behindStore = true → s.stopStored = true

/-- **What a worker does about the flag**: it comes behind the store by storing. It leaves
`run()` alone, or wakes it. -/
structure Stores {n : ℕ} (s t : State n) (w : Fin n) (v : Worker) : Prop where
  workers : t.workers = Function.update s.workers w v
  runPc : t.runPc = s.runPc ∨ t.runPc = s.runPc.woken
  stores : v.pc.behindStore = true → t.stopStored = true
  keeps : s.stopStored = true → t.stopStored = true

/-- A step that leaves the flag, and takes no worker behind the store, does to the flag what
`Stores` says. -/
theorem Stores.of_not {n : ℕ} {s t : State n} {w : Fin n} {v : Worker}
    (hworkers : t.workers = Function.update s.workers w v)
    (hrun : t.runPc = s.runPc ∨ t.runPc = s.runPc.woken) (hv : v.pc.behindStore = false)
    (hstored : t.stopStored = s.stopStored) : s.Stores t w v :=
  ⟨hworkers, hrun, fun h => absurd (hv.symm.trans h) Bool.false_ne_true, fun h => hstored.trans h⟩

/-- The step of a worker that `GetQueuedCompletionStatus` refused does to the flag what
`Stores` says. -/
theorem stores_portError {n : ℕ} {s s' : State n} {w : Fin n} (code : ℕ) (allocated : Bool)
    (hw : (s.workers w).pc = .waiting) (hworkers : s'.workers = s.workers)
    (hrun : s'.runPc = s.runPc) (hstored : s'.stopStored = s.stopStored) :
    ∃ v, s.Stores (s'.portError w code allocated) w v := by
  obtain ⟨v, hv, -, -, -, hset⟩ := portError_eq s' w code allocated
  refine ⟨v, .of_not (hworkers ▸ hset) (.inl ?_) ?_ ?_⟩
  · rw [← hrun, portError]
    split <;> rfl
  · rcases hv with rfl | hv
    · rw [hworkers, hw]
      rfl
    · rw [hv]
      rfl
  · rw [← hstored, portError]
    split <;> rfl

/-- A step of a worker with a packet in hand does to the flag what `Stores` says. -/
theorem stores_handling {n : ℕ} {s t : State n} {w : Fin n} {o : OpId} {sz : ℕ} {stage : Stage}
    {choice : WorkerChoice} (hw : (s.workers w).pc = .handling o sz stage)
    (hstep : s.handlingStep w o sz stage choice = some t) : ∃ v, s.Stores t w v := by
  have hwoken : s.wakeAll.stopStored = s.stopStored := by
    rw [wakeAll]
    split <;> rfl
  cases handles_of_handlingStep hstep with
  | hold | dropRef | addTransferred | setDone | invoke | dropTask exits =>
      exact ⟨_, .of_not rfl (.inl rfl) rfl rfl⟩
  | lookup =>
      rw [lookup]
      split <;> exact ⟨_, .of_not rfl (.inl rfl) rfl rfl⟩
  | stop =>
      rw [stopGuard]
      split
      · exact ⟨_, .of_not rfl (.inl rfl) rfl rfl⟩
      · refine ⟨s.workers w, .of_not (Function.update_eq_self w s.workers).symm (.inl rfl) ?_ rfl⟩
        rw [hw]
        rfl
  | stopStore => exact ⟨_, rfl, .inl rfl, fun _ => rfl, fun _ => rfl⟩
  | stopWake | fail =>
      exact ⟨_, .of_not (congrArg (Function.update · w _) s.wakeAll_workers)
        (.inr s.wakeAll_runPc) rfl hwoken⟩
  | ret e => cases e <;> exact ⟨_, .of_not rfl (.inl rfl) rfl rfl⟩
  | dropRaw exits hit => cases exits <;> exact ⟨_, .of_not rfl (.inl rfl) rfl rfl⟩

/-- A step of a worker does to the flag what `Stores` says. -/
theorem stores_worker {n : ℕ} {s t : State n} {w : Fin n} {choice : WorkerChoice}
    (hstep : s.workerStep w choice = some t) : ∃ v, s.Stores t w v := by
  rw [workerStep] at hstep
  split at hstep
  · rename_i hw
    cases takes_of_waitingStep hstep with
    | zero hqueue | op hqueue => exact ⟨_, .of_not rfl (.inl rfl) rfl rfl⟩
    | opFailed hqueue allocated => exact stores_portError _ _ hw rfl rfl rfl
    | portFailed code allocated => exact stores_portError _ _ hw rfl rfl rfl
  · rename_i hw
    exact stores_handling hw hstep
  · obtain ⟨-, rfl⟩ := Option.ite_none_right_eq_some.mp hstep |>.imp_right Option.some.inj
    exact ⟨_, .of_not rfl (.inl rfl) rfl rfl⟩
  · cases hstep
  · cases hstep

/-- A step of `run()` brings no thread into `stop()`, and leaves the history until it enters. -/
theorem Stored.run {n : ℕ} {s t : State n} {choice : RunChoice} (ho : s.Ordered) (h : s.Stored)
    (hturn : s.Turns (.run choice) t) : t.Stored := by
  have hkept : ∀ {i : Fin n} {v : Worker}, t.workers = Function.update s.workers i v →
      (v.pc.behindStore = true → s.stopStored = true) → t.flags = s.flags → t.Stored := by
    intro i v hworkers hv hflags
    obtain ⟨-, hstored, -⟩ := flags_eq_iff.mp hflags
    rw [Stored, hstored]
    exact forall_workers_update (P := fun _ v => v.pc.behindStore = true → s.stopStored = true) h
      hworkers hv
  cases hturn with
  | quiet hworkers hrun hflags | advance hpc hadv hworkers hflags
  | start hpc hworkers hrun hflags =>
      obtain ⟨-, hstored, -⟩ := flags_eq_iff.mp hflags
      rw [Stored, hworkers, hstored]
      exact h
  | enter hpc hworkers hrun hflags =>
      intro w hw
      rw [hworkers] at hw
      have hactive : (s.workers w).pc.active = true := by
        cases hv : (s.workers w).pc <;> rw [hv] at hw <;>
          first | rfl | exact absurd hw Bool.false_ne_true
      have hserving := ho.active w hactive
      rw [hpc] at hserving
      exact absurd hserving Bool.false_ne_true
  | throw i hworkers hrun hflags hpc => exact hkept hworkers (h i) hflags
  | resume i hpc hi hworkers hrun hflags =>
      exact hkept hworkers (fun hv => absurd hv Bool.false_ne_true) hflags

/-- The step lemma of `Stored`: every step keeps it. -/
theorem Stored.step {n : ℕ} {s t : State n} {l : Label n} (ho : s.Ordered) (h : s.Stored)
    (hstep : s.step l = some t) : t.Stored := by
  obtain ⟨-, hgo⟩ := Option.ite_none_left_eq_some.mp hstep
  cases l with
  | submit o choice =>
      obtain ⟨a, -, rfl⟩ := Option.map_eq_some_iff.mp hgo
      cases a <;> exact h
  | complete o sz | completeFailed o code =>
      obtain ⟨-, rfl⟩ := Option.ite_none_right_eq_some.mp hgo |>.imp_right Option.some.inj
      exact h
  | worker w choice =>
      obtain ⟨v, hstores⟩ := stores_worker hgo
      exact forall_workers_update (P := fun _ v => v.pc.behindStore = true → t.stopStored = true)
        (fun w' hw' => hstores.keeps (h w' hw')) hstores.workers hstores.stores
  | run choice =>
      have hturn : s.Turns (.run choice) t := turns_run hgo
      exact h.run ho hturn

end State

/-- Thread `w` may still be suspended when `run()` is here: it was not resumed yet, or no
worker is active. -/
def RunPc.resumes (w : ℕ) : RunPc → Bool
  | .resuming i => i ≤ w
  | .beforeSleep | .asleep | .posting _ | .joining _ => false
  | .outside | .scanning _ | .starting | .collecting _ => true

/-- Waking `run()` resumes nothing. -/
@[simp] theorem RunPc.resumes_woken (w : ℕ) (p : RunPc) : p.woken.resumes w = p.resumes w := by
  rw [woken]
  split
  · rename_i h
    rw [h]
    rfl
  · rfl

namespace State

/-- The loop of `ResumeThread` leaves no thread suspended. -/
def Resumed {n : ℕ} (s : State n) : Prop :=
  ∀ w, (s.workers w).pc = .suspended → s.runPc.resumes w = true

/-- A thread that is suspended after a step was suspended before it. -/
theorem Turns.suspended {n : ℕ} {s t : State n} {l : Label n} (hturn : s.Turns l t) {w : Fin n}
    (hw : (t.workers w).pc = .suspended) : (s.workers w).pc = .suspended := by
  have hturned := hturn.worker w
  generalize s.workers w = v at hturned
  generalize t.workers w = v' at hw hturned
  cases hturned with
  | same | taken => exact hw
  | resumed hpc | signals hpc => cases hw
  | proceeds h =>
      cases h with
      | @finish _ _ _ exits =>
          cases exits <;> cases hw
      | _ => cases hw

/-- The step lemma of `Resumed`: every turn keeps it. -/
theorem Resumed.step {n : ℕ} {s t : State n} {l : Label n} (h : s.Resumed)
    (hturn : s.Turns l t) : t.Resumed := by
  intro w hw
  have hbefore := h w (hturn.suspended hw)
  cases hturn with
  | quiet hworkers hrun hflags => rw [hrun]; exact hbefore
  | enter hpc hworkers hrun hflags | throw i hworkers hrun hflags hpc => rw [hrun]; rfl
  | start hpc hworkers hrun hflags =>
      rw [hrun]
      exact decide_eq_true (p := 0 ≤ (w : ℕ)) (Nat.zero_le _)
  | resume i hpc hi hworkers hrun hflags =>
      rw [hpc] at hbefore
      have hle : (i : ℕ) ≤ w := of_decide_eq_true hbefore
      have hne : (i : ℕ) ≠ w := by
        intro heq
        obtain rfl := Fin.ext heq
        rw [hworkers, Function.update_self] at hw
        cases hw
      rw [hrun]
      exact decide_eq_true (Nat.lt_of_le_of_ne hle hne)
  | @advance _ _ p hpc hadv hworkers hflags =>
      rw [hworkers] at hw
      rw [hpc] at hbefore
      generalize t.runPc = q at hadv
      cases hadv with
      | skip i hi =>
          have hle : (i : ℕ) ≤ w := of_decide_eq_true hbefore
          have hne : (i : ℕ) ≠ w := fun heq => hi (Fin.ext heq ▸ hw)
          exact decide_eq_true (Nat.lt_of_le_of_ne hle hne)
      | resumed hle =>
          have hlt : _ ≤ (w : ℕ) := of_decide_eq_true hbefore
          exact absurd (hle.trans hlt) (Nat.not_le_of_lt w.isLt)
      | _ => first | rfl | exact absurd hbefore Bool.false_ne_true
  | proceed w' hw' hworkers hrun hflags | stopStore w' hw' hworkers hrun hflags =>
      rw [hrun]
      exact hbefore
  | stopWake w' hw' hworkers hrun hflags | failWake w' hw' hworkers hrun hflags =>
      rw [hrun, RunPc.resumes_woken]
      exact hbefore

/-- **What the threads rely on** in every run. -/
structure Going {n : ℕ} (s : State n) : Prop where
  coherent : s.Coherent
  ordered : s.Ordered
  stored : s.Stored
  resumed : s.Resumed

/-- The step lemma of `Going`: every step keeps it. -/
theorem Going.step {n : ℕ} {s t : State n} {l : Label n} (h : s.Going)
    (hstep : s.step l = some t) : t.Going where
  coherent := (moves_of_step h.coherent hstep).coherent h.coherent
  ordered := h.ordered.step (turns_of_step hstep)
  stored := h.stored.step h.ordered hstep
  resumed := h.resumed.step (turns_of_step hstep)

/-- In `stop()`, behind the store, the flag is cleared. -/
theorem Going.cleared {n : ℕ} {s : State n} (h : s.Going) {w : Fin n} {o : OpId} {sz : ℕ}
    (hw : (s.workers w).pc = .handling o sz .stopWake) : s.isRunning = false := by
  have hstored : s.stopStored = true := h.stored w (by rw [hw]; rfl)
  have hserving : s.runPc.serving = true := h.ordered.active w (by rw [hw]; rfl)
  rw [h.ordered.flag hserving, hstored]
  rfl

/-- **An active worker can move**, unless it waits at an empty queue; no port need fail for it. -/
theorem exists_workerStep {n : ℕ} {s : State n} {w : Fin n} (hab : s.aborted = none)
    (hactive : (s.workers w).pc.active = true)
    (hqueue : (s.workers w).pc = .waiting → s.queue ≠ []) :
    ∃ choice t, choice.onPort = false ∧ s.step (.worker w choice) = some t := by
  have hstep : ∀ choice, s.step (.worker w choice) = s.workerStep w choice := by
    intro choice
    simp [step, hab]
  simp only [hstep]
  cases hw : (s.workers w).pc with
  | suspended | exited =>
      rw [hw] at hactive
      exact absurd hactive Bool.false_ne_true
  | returning =>
      refine ⟨.go, s.setPc w .exited, rfl, ?_⟩
      rw [workerStep, hw]
      rfl
  | waiting =>
      cases hhead : s.queue with
      | nil => exact absurd hhead (hqueue hw)
      | cons p rest =>
          cases p with
          | zero | op o sz =>
              refine ⟨.go, ?_⟩
              simp only [workerStep, hw, waitingStep, hhead]
              exact ⟨_, rfl, rfl⟩
          | opFailed o code =>
              refine ⟨.failed true, ?_⟩
              simp only [workerStep, hw, waitingStep, hhead]
              exact ⟨_, rfl, rfl⟩
  | handling o sz stage =>
      cases stage with
      | callback =>
          refine ⟨.ret none, ?_⟩
          simp only [workerStep, hw, handlingStep]
          exact ⟨_, rfl, rfl⟩
      | _ =>
          refine ⟨.go, ?_⟩
          simp only [workerStep, hw, handlingStep]
          exact ⟨_, rfl, rfl⟩

end State

/-- **In every run** the threads find what they rely on. -/
theorem service_going {n : ℕ} {s : State n} (h : (service n).Reachable s) : s.Going := by
  refine h.invariant (I := State.Going) ?_ fun _ _ _ hI hs => hI.step hs
  exact ⟨State.coherent_init n, State.ordered_init n,
    fun w hw => absurd hw Bool.false_ne_true, fun _ _ => rfl⟩

/-! ### Steps of threads -/

/-- A step of a worker. -/
def Label.ofWorker {n : ℕ} : Label n → Bool
  | .worker _ _ => true
  | _ => false

/-- A step of a worker or of `run()`. -/
def Label.ofThread {n : ℕ} : Label n → Bool
  | .worker _ _ | .run _ => true
  | _ => false

/-- The step asks for no failure of the completion port. -/
def Label.orderly {n : ℕ} : Label n → Bool
  | .worker _ choice => !choice.onPort
  | _ => true

/-- A step that is not a worker's is no step of any worker. -/
theorem Label.ne_worker {n : ℕ} {l : Label n} (h : ¬l.ofWorker = true) (w : Fin n)
    (choice : WorkerChoice) : l ≠ .worker w choice := by
  rintro rfl
  exact h rfl

namespace State

/-- The step of a worker is taken by a process that runs. -/
theorem workerStep_of_step {n : ℕ} {s t : State n} {w : Fin n} {choice : WorkerChoice}
    (hstep : s.step (.worker w choice) = some t) :
    s.aborted = none ∧ s.workerStep w choice = some t :=
  (Option.ite_none_left_eq_some.mp hstep).imp_left Option.not_isSome_iff_eq_none.mp

/-! ### A packet in the queue -/

/-- A packet of operation `o` is in the queue. -/
def Queued {n : ℕ} (s : State n) (o : OpId) : Prop := s.queue.any (Packet.of o) = true

instance {n : ℕ} (s : State n) (o : OpId) : Decidable (s.Queued o) :=
  inferInstanceAs (Decidable (_ = true))

/-- An operation a packet of which is in the queue has packets. -/
theorem Queued.packetsOf {n : ℕ} {s : State n} {o : OpId} (h : s.Queued o) :
    s.packetsOf o ≠ [] := by
  obtain ⟨p, hp, hof⟩ := List.any_eq_true.mp h
  exact List.ne_nil_of_mem (List.mem_filter.mpr ⟨hp, hof⟩)

/-- The kernel completes no operation twice. -/
theorem Queued.foreign {n : ℕ} {s : State n} {o : OpId} (h : s.Queued o) (hgoing : s.Going) :
    s.Foreign (Packet.of o) := by
  have hpending : ∀ o', (s.calls o').kernelPending = true → o' ≠ o := by
    rintro o' hp rfl
    have hcall := hgoing.coherent o'
    have hpackets := hcall.packets
    rw [hcall.sound.pending.mp hp] at hpackets
    exact h.packetsOf hpackets
  refine ⟨fun _ _ => rfl, fun o' sz hp => ?_, fun o' code hp => ?_⟩ <;>
    exact decide_eq_false fun heq => hpending o' hp (Option.some.inj heq)

/-- There is one packet of an operation at most. -/
theorem Going.unique {n : ℕ} {s : State n} {o : OpId} (h : s.Going) {before after : List Packet}
    {p : Packet} (hqueue : s.queue = before ++ p :: after) (hp : Packet.of o p = true) :
    after.any (Packet.of o) = false := by
  have hlength : (s.packetsOf o).length ≤ 1 := by
    have hpackets := (h.coherent o).packets
    cases hphase : (s.calls o).packet <;> rw [hphase] at hpackets <;>
      simp only [PacketPhase.QueueHolds] at hpackets
    case queued =>
      obtain ⟨sz, hone⟩ := hpackets
      rw [hone]
      exact Nat.le_refl 1
    case queuedFailed =>
      obtain ⟨code, hone⟩ := hpackets
      rw [hone]
      exact Nat.le_refl 1
    all_goals
      rw [hpackets]
      exact Nat.zero_le 1
  have hsplit : s.packetsOf o = before.filter (Packet.of o) ++ p :: after.filter (Packet.of o) := by
    change s.queue.filter (Packet.of o) = _
    rw [hqueue, List.filter_append, List.filter_cons_of_pos hp]
  have hnil : after.filter (Packet.of o) = [] := by
    rw [← List.length_eq_zero_iff]
    rw [hsplit, List.length_append, List.length_cons] at hlength
    omega
  exact List.any_eq_false.mpr (List.filter_eq_nil_iff.mp hnil)

/-- **The load up to a packet** ranks the states until it is taken. -/
def takingRank (n : ℕ) (o : OpId) :
    Machine.Ranking (service n) (fun s _ => s.Queued o) (fun l => l.ofWorker = true) where
  holds := Going
  rank := load (Packet.of o)
  holds_step := fun hs _ hstep => hs.step hstep
  rank_lt := fun {s l t} hs hG hstep hl => by
    cases l with
    | worker w choice =>
        obtain ⟨hab, hgo⟩ := workerStep_of_step hstep
        exact load_lt_worker hab (fun _ _ => hs.cleared) (fun _ => hG) hgo
    | _ => exact absurd hl Bool.false_ne_true
  rank_le := fun hs hG hstep hl =>
    load_le_step hs.ordered (hG.foreign hs) (Label.ne_worker hl) hstep

/-- **A completed operation is served** when `ahead` packets stand before its own. -/
structure Serves {n : ℕ} (s : State n) (o : OpId) (ahead : ℕ) : Prop where
  /-- The workers take so many steps at most before one of them takes the packet, whatever
  the other threads and the kernel do. -/
  bounded : ∀ ls t, (service n).execWhere (fun s _ => s.Queued o) s ls = some t →
    ls.countP (·.ofWorker) ≤ 14 * (ahead + 1) + 15 * n + 1
  /-- Meanwhile a worker can move, if one is active. -/
  enabled : ∀ t, (service n).RunWhere (fun s _ => s.Queued o) s t → t.Queued o →
    t.aborted = none → (∃ w, (t.workers w).pc.active = true) →
    ∃ w choice u, choice.onPort = false ∧ t.step (.worker w choice) = some u
  /-- The workers alone come to the packet, unless none is left. -/
  taken : ∃ t, (service n).RunWhere (fun s l => (l.ofWorker = true ∧ l.orderly = true) ∧
      s.Queued o) s t ∧
    (¬t.Queued o ∨ t.aborted ≠ none ∨ ∀ w, (t.workers w).pc.active = false)
  /-- When workers move again and again, one of them takes the packet. -/
  fair : ∀ (states : ℕ → State n) (labels : ℕ → Label n), states 0 = s →
    (∀ k, (service n).step (states k) (labels k) = some (states (k + 1))) →
    (∀ k, ∃ m, k ≤ m ∧ (labels m).ofWorker = true) → ∃ k, ¬(states k).Queued o

end State

/-- **No completed operation starves**: the packets are taken in the order they came, whatever
is submitted and completed meanwhile, and whether `run()` is woken or not. -/
theorem completion_taken {n : ℕ} {s : State n} (h : (service n).Reachable s) {o : OpId}
    {before after : List Packet} {p : Packet} (hqueue : s.queue = before ++ p :: after)
    (hp : p.op? = some o) : s.Serves o before.length := by
  have hgoing := service_going h
  have hof : Packet.of o p = true := decide_eq_true hp
  have hlast : Machine.untilLast (Packet.of o) s.queue = before.length + 1 := by
    rw [hqueue]
    exact Machine.untilLast_append_cons hof (hgoing.unique hqueue hof) before
  have hmoves : ∀ t : State n, t.Going → t.Queued o → t.aborted = none →
      (∃ w, (t.workers w).pc.active = true) →
      ∃ w choice u, choice.onPort = false ∧ t.step (.worker w choice) = some u := by
    rintro t ht hqueued hab ⟨w, hw⟩
    refine ⟨w, State.exists_workerStep hab hw fun _ hnil => ?_⟩
    rw [State.Queued, hnil] at hqueued
    exact Bool.false_ne_true hqueued
  constructor
  · intro ls t hrun
    have hcount := (State.takingRank n o).countP_le hrun hgoing
    have hle : s.load (Packet.of o) ≤ _ := s.load_le _
    have hrank : (State.takingRank n o).rank s = s.load (Packet.of o) := rfl
    simp only [Bool.decide_eq_true] at hcount
    omega
  · intro t hrun hqueued hab hactive
    exact hmoves t ((State.takingRank n o).holds_of_run hgoing hrun) hqueued hab hactive
  · refine (State.takingRank n o).exists_goal (fun _ hl => hl.1) (fun t ht hgoal => ?_) hgoing
    obtain ⟨hqueued, hrest⟩ := not_or.mp hgoal
    obtain ⟨hab, hactive⟩ := not_or.mp hrest
    obtain ⟨w, choice, u, hport, hstep⟩ := hmoves t ht (not_not.mp hqueued) (not_not.mp hab)
      (by simpa using hactive)
    exact ⟨.worker w choice, u, ⟨rfl, by rw [Label.orderly, hport]; rfl⟩, not_not.mp hqueued,
      hstep⟩
  · rintro states labels rfl hsteps hfair
    obtain ⟨k, hk⟩ := (State.takingRank n o).exists_not_of_fair hsteps hgoing hfair
    exact ⟨k, hk⟩

/-- A packet of a read is served when one worker waits for it. -/
theorem completion_taken_read :
    ∃ s : State 1, s.queue = [.op 0 5] ∧ (s.workers 0).pc = .waiting ∧ s.Serves 0 0 := by
  obtain ⟨s, hrun, hqueue, hw⟩ := Machine.exists_runWhere (M := service 1) (G := fun _ _ => True)
    (s := (service 1).init)
    (P := fun s => s.queue = [] ++ Packet.op 0 5 :: [] ∧ (s.workers 0).pc = .waiting)
    (startUp ++ submitUpToIssue .read) (by decide)
  exact ⟨s, hqueue, hw, completion_taken hrun hqueue rfl⟩

/-! ### The end of a run -/

/-- How many steps `run()` has before it when its packets are posted. -/
def RunPc.cost (n : ℕ) : RunPc → ℕ
  | .posting _ => 2 * n + 3
  | .joining i => n - i + (n + 2)
  | .collecting i => n - i + 1
  | _ => 0

/-- `run()` has posted its packets. -/
def RunPc.ending (n : ℕ) : RunPc → Bool
  | .posting i => n ≤ i
  | .joining _ | .collecting _ => true
  | _ => false

namespace State

/-- **The end of a run**: there is a packet for every thread that is still there, and `run()` has
posted its packets or has returned. -/
structure Ending {n : ℕ} (s : State n) : Prop where
  going : s.Going
  covered : n ≤ s.zeros + s.ended.card
  ending : s.runPc ≠ .outside → s.runPc.ending n = true

/-- Waking `run()` is no use any more. -/
theorem Ending.woken {n : ℕ} {s : State n} (h : s.Ending) : s.runPc.woken = s.runPc := by
  rw [RunPc.woken, if_neg]
  intro hpc
  have hending := h.ending (by rw [hpc]; exact RunPc.noConfusion)
  rw [hpc] at hending
  exact Bool.false_ne_true hending

/-- **What `run()` has before it** gets less with each of its steps, and it goes on to the end. -/
theorem Ending.run {n : ℕ} {s t : State n} {choice : RunChoice} (h : s.Ending)
    (hpc : s.runPc ≠ .outside) (hstep : s.runStep choice = some t) :
    t.runPc.cost n < s.runPc.cost n ∧ (t.runPc ≠ .outside → t.runPc.ending n = true) := by
  have hending := h.ending hpc
  cases runs_of_runStep hstep with
  | guard hp | enter hp => exact absurd hp hpc
  | spurious hp | scan i hp | scanned hp hall | start hp | resume i hp hw | skip i hp hw
  | resumed hp hall | sleep hp =>
      rw [hp] at hending
      exact absurd hending Bool.false_ne_true
  | post i hp =>
      rw [hp] at hending
      exact absurd (of_decide_eq_true hending) (Nat.not_le_of_lt i.isLt)
  | posted hp hall | joined hp hall =>
      rw [hp]
      refine ⟨?_, fun _ => rfl⟩
      simp only [RunPc.cost]
      omega
  | join i hp hw =>
      rw [hp]
      refine ⟨?_, fun _ => rfl⟩
      simp only [RunPc.cost]
      omega
  | collect i hp =>
      rw [hp, takeException]
      split
      · refine ⟨?_, fun _ => rfl⟩
        simp only [RunPc.cost]
        omega
      · exact ⟨Nat.zero_lt_succ _, fun hout => absurd rfl hout⟩
  | collected hp hall =>
      rw [hp]
      exact ⟨Nat.zero_lt_succ _, fun hout => absurd rfl hout⟩

/-- Any other step leaves `run()` where it is. -/
theorem Ending.runPc_eq {n : ℕ} {s t : State n} {l : Label n} (h : s.Ending)
    (hl : ∀ choice, l ≠ .run choice) (hstep : s.step l = some t) : t.runPc = s.runPc := by
  obtain ⟨-, hgo⟩ := Option.ite_none_left_eq_some.mp hstep
  cases l with
  | submit o choice =>
      obtain ⟨a, -, rfl⟩ := Option.map_eq_some_iff.mp hgo
      cases a <;> rfl
  | complete o sz | completeFailed o code =>
      obtain ⟨-, rfl⟩ := Option.ite_none_right_eq_some.mp hgo |>.imp_right Option.some.inj
      rfl
  | worker w choice =>
      obtain ⟨v, hstores⟩ := stores_worker hgo
      rcases hstores.runPc with hsame | hwoken
      · exact hsame
      · exact hwoken.trans h.woken
  | run choice => exact absurd rfl (hl choice)

/-- The step lemma of `Ending`: every step keeps it until `run()` returns. -/
theorem Ending.step {n : ℕ} {s t : State n} {l : Label n} (h : s.Ending)
    (hpc : s.runPc ≠ .outside) (hstep : s.step l = some t) : t.Ending := by
  refine ⟨h.going.step hstep, h.covered.trans (drains_of_step hstep).sum, fun hout => ?_⟩
  by_cases hl : ∃ choice, l = .run choice
  · obtain ⟨choice, rfl⟩ := hl
    exact (h.run hpc (Option.ite_none_left_eq_some.mp hstep).2).2 hout
  · have hsame := h.runPc_eq (fun choice heq => hl ⟨choice, heq⟩) hstep
    rw [hsame]
    exact h.ending hpc

/-- A worker that waits finds a zero-key packet. -/
theorem Ending.any_zero {n : ℕ} {s : State n} (h : s.Ending) {w : Fin n}
    (hw : (s.workers w).pc = .waiting) : s.queue.any (· = .zero) = true := by
  have hlive : 0 < s.live.card := Finset.card_pos.mpr ⟨w, by simp [live, hw]⟩
  have hpos : 0 < s.queue.count .zero := Nat.lt_of_lt_of_le hlive (live_le_zeros h.covered)
  exact List.any_eq_true.mpr ⟨.zero, List.count_pos_iff.mp hpos, decide_eq_true rfl⟩

/-- The zero-key packets are all posted. -/
theorem Ending.foreign {n : ℕ} {s : State n} (h : s.Ending) (hpc : s.runPc ≠ .outside) :
    s.Foreign (· = .zero) := by
  refine ⟨fun i hi => ?_, fun _ _ _ => rfl, fun _ _ _ => rfl⟩
  have hending := h.ending hpc
  rw [hi] at hending
  exact absurd (of_decide_eq_true hending) (Nat.not_le_of_lt i.isLt)

/-- What the threads have before them until `run()` has returned. -/
def remaining {n : ℕ} (s : State n) : ℕ := s.load (· = .zero) + s.runPc.cost n

/-- The workers and `run()` have less before them after each of their steps. -/
theorem Ending.remaining_lt {n : ℕ} {s t : State n} {l : Label n} (h : s.Ending)
    (hpc : s.runPc ≠ .outside) (hl : l.ofThread = true) (hstep : s.step l = some t) :
    t.remaining < s.remaining := by
  rw [remaining, remaining]
  cases l with
  | worker w choice =>
      obtain ⟨hab, hgo⟩ := workerStep_of_step hstep
      have hsame : t.runPc = s.runPc := h.runPc_eq (by simp) hstep
      have hlt := load_lt_worker hab (fun _ _ => h.going.cleared) h.any_zero hgo
      rw [hsame]
      omega
  | run choice =>
      have hle := load_le_step h.going.ordered (h.foreign hpc) (by simp) hstep
      have hlt := (h.run hpc (Option.ite_none_left_eq_some.mp hstep).2).1
      omega
  | submit o choice | complete o sz | completeFailed o code => exact absurd hl Bool.false_ne_true

/-- No other step gives them more to do. -/
theorem Ending.remaining_le {n : ℕ} {s t : State n} {l : Label n} (h : s.Ending)
    (hpc : s.runPc ≠ .outside) (hl : ¬l.ofThread = true) (hstep : s.step l = some t) :
    t.remaining ≤ s.remaining := by
  have hle := load_le_step h.going.ordered (h.foreign hpc)
    (fun w choice heq => hl (by rw [heq]; rfl)) hstep
  have hsame := h.runPc_eq (fun choice heq => hl (by rw [heq]; rfl)) hstep
  rw [remaining, remaining, hsame]
  omega

/-- **What the threads have before them** ranks the states until `run()` returns. -/
def returningRank (n : ℕ) :
    Machine.Ranking (service n) (fun s _ => s.runPc ≠ .outside) (fun l => l.ofThread = true) where
  holds := Ending
  rank := remaining
  holds_step := fun hs hpc hstep => hs.step hpc hstep
  rank_lt := fun hs hpc hstep hl => hs.remaining_lt hpc hl hstep
  rank_le := fun hs hpc hstep hl => hs.remaining_le hpc hl hstep

/-- **A thread can move** until `run()` has returned. -/
theorem Ending.exists_step {n : ℕ} {s : State n} (h : s.Ending) (hpc : s.runPc ≠ .outside)
    (hab : s.aborted = none) :
    ∃ l t, l.ofThread = true ∧ l.orderly = true ∧ s.step l = some t := by
  have hending := h.ending hpc
  have hgo : s.runGo.isSome = true →
      ∃ l t, l.ofThread = true ∧ l.orderly = true ∧ s.step l = some t := by
    intro hsome
    obtain ⟨t, ht⟩ := Option.isSome_iff_exists.mp hsome
    exact ⟨.run .go, t, rfl, rfl, by simp [State.step, hab, runStep, ht]⟩
  cases hp : s.runPc with
  | outside => exact absurd hp hpc
  | scanning i | starting | resuming i | beforeSleep | asleep =>
      rw [hp] at hending
      exact absurd hending Bool.false_ne_true
  | posting i =>
      rw [hp] at hending
      refine hgo ?_
      rw [runGo, hp]
      simp only [if_neg (Nat.not_lt_of_le (of_decide_eq_true hending)), Option.isSome_some]
  | collecting i =>
      refine hgo ?_
      rw [runGo, hp]
      dsimp only
      split <;> rfl
  | joining i =>
      by_cases hi : ∃ hlt : i < n, (s.workers ⟨i, hlt⟩).pc ≠ .exited
      · obtain ⟨hlt, hw⟩ := hi
        have hactive : (s.workers ⟨i, hlt⟩).pc.active = true := by
          cases hwp : (s.workers ⟨i, hlt⟩).pc with
          | waiting | handling o sz stage | returning => rfl
          | exited => exact absurd hwp hw
          | suspended =>
              have hbefore := h.going.resumed _ hwp
              rw [hp] at hbefore
              exact absurd hbefore Bool.false_ne_true
        obtain ⟨choice, t, hport, hstep⟩ := exists_workerStep hab hactive fun hwait =>
          queue_ne_nil_of_live (live_le_zeros h.covered) hwait
        exact ⟨_, t, rfl, by rw [Label.orderly, hport]; rfl, hstep⟩
      · refine hgo ?_
        have hjoined : ∀ hlt : i < n, (s.workers ⟨i, hlt⟩).pc = .exited := fun hlt =>
          not_not.mp (not_exists.mp hi hlt)
        rw [runGo, hp]
        dsimp only
        split
        · rename_i hlt
          rw [if_pos (hjoined hlt)]
          rfl
        · rfl

/-- **A run comes to its end**: what holds from the posting of the last zero-key packet on. -/
structure Returns {n : ℕ} (s : State n) : Prop where
  /-- The workers and `run()` take so many steps at most before it returns, whatever is
  submitted and completed meanwhile. -/
  bounded : ∀ ls t, (service n).execWhere (fun s _ => s.runPc ≠ .outside) s ls = some t →
    ls.countP (·.ofThread) ≤ 14 * s.queue.length + 17 * n + 4
  /-- Meanwhile one of them can move. -/
  enabled : ∀ t, (service n).RunWhere (fun s _ => s.runPc ≠ .outside) s t →
    t.runPc ≠ .outside → t.aborted = none →
    ∃ l u, l.ofThread = true ∧ l.orderly = true ∧ t.step l = some u
  /-- They come to the return alone. -/
  returns : ∃ t, (service n).RunWhere (fun s l => (l.ofThread = true ∧ l.orderly = true) ∧
      s.runPc ≠ .outside) s t ∧ (t.runPc = .outside ∨ t.aborted ≠ none)
  /-- When they move again and again, `run()` returns. -/
  fair : ∀ (states : ℕ → State n) (labels : ℕ → Label n), states 0 = s →
    (∀ k, (service n).step (states k) (labels k) = some (states (k + 1))) →
    (∀ k, ∃ m, k ≤ m ∧ (labels m).ofThread = true) → ∃ k, (states k).runPc = .outside

end State

/-- **`run()` returns** once its packets are posted: every worker that is left takes one, behind
the packets that were in the queue before, and the join finds them ended. -/
theorem shutdown_returns {n : ℕ} {s : State n} (h : (service n).Reachable s)
    (hpc : s.runPc = .posting n) : s.Returns := by
  have hending : s.Ending := by
    obtain ⟨taken, hrun⟩ := h.remember (fun _ => 0) State.noteZeros (fun _ => 0)
    obtain ⟨-, -, -, hposted⟩ := draining_invariant hrun
    dsimp only at hposted
    rw [hpc] at hposted
    exact ⟨service_going h, hposted, fun _ => hpc ▸ decide_eq_true (Nat.le_refl n)⟩
  constructor
  · intro ls t hrun
    have hcount := (State.returningRank n).countP_le hrun hending
    have hload := s.load_le (· = .zero)
    have hlast := Machine.untilLast_le_length (· = Packet.zero) s.queue
    have hrank : (State.returningRank n).rank s = s.load (· = .zero) + (2 * n + 3) := by
      change s.remaining = _
      rw [State.remaining, hpc]
      rfl
    simp only [Bool.decide_eq_true] at hcount
    omega
  · intro t hrun hout hab
    exact ((State.returningRank n).holds_of_run hending hrun).exists_step hout hab
  · refine (State.returningRank n).exists_goal (fun _ hl => hl.1) (fun t ht hgoal => ?_) hending
    obtain ⟨hout, hab⟩ := not_or.mp hgoal
    obtain ⟨l, u, hl, horderly, hstep⟩ := ht.exists_step hout (not_not.mp hab)
    exact ⟨l, u, ⟨hl, horderly⟩, hout, hstep⟩
  · rintro states labels rfl hsteps hfair
    obtain ⟨k, hk⟩ := (State.returningRank n).exists_not_of_fair hsteps hending hfair
    exact ⟨k, not_not.mp hk⟩

/-- The call of `run()` returns when one worker waits and the zero-key packet is behind that of
a read. -/
theorem shutdown_returns_read :
    ∃ s : State 1, s.queue = [.op 0 5, .zero] ∧ s.runPc = .posting 1 ∧ s.Returns := by
  obtain ⟨s, hrun, hqueue, hpc⟩ := Machine.exists_runWhere (M := service 1) (G := fun _ _ => True)
    (s := (service 1).init)
    (P := fun s => s.queue = [Packet.op 0 5, Packet.zero] ∧ s.runPc = .posting 1)
    (startUp ++ submitUpToIssue .read ++ [.run .spurious, .run .go]) (by decide)
  exact ⟨s, hqueue, hpc, shutdown_returns hrun hpc⟩

end Netknot.Win32
