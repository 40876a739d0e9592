import Mathlib.Data.Fintype.Card
import Netknot.Sockets
import Netknot.Win32.Report

/-!
# Draining the Workers

`run()`, once woken, posts one zero-key packet for each of its threads. A worker that takes
one breaks out of its loop, so a packet is used up only by a thread that ends. The sum of the
zero-key packets in the queue and the threads that have ended never goes down, and grows with
every packet posted: when all are posted it is at least the number of threads, so there is a
packet for every thread that is still there, however the others left.

`PostQueuedCompletionStatus` is taken to succeed.

## Main results

* `drains_of_step`: what a step does to the sum.
* `shutdown_drains`: no worker takes two zero-key packets, or an operation for one; after the
  posting no worker waits at an empty queue; after the return the threads have ended and no
  callback is invoked.
-/

namespace Netknot.Win32

/-- The key a worker gets with a packet: `createSocket` associates every socket under
`(ULONG_PTR)this`, and `run()` posts zero. -/
def Packet.key (this : ServicePtr) (p : Packet) : ℕ := if p.keyed then this else 0

/-- How many packets `run()` has posted while it posts. -/
def RunPc.posted : RunPc → ℕ
  | .posting i => i
  | _ => 0

/-- `run()` ends a run from its last loop only. -/
theorem RunPc.Advances.collecting {n : ℕ} {workers : Fin n → Worker} {p q : RunPc}
    (h : p.Advances workers q) (hp : p.started = true) (hq : q.started = false) :
    ∃ i, p = .collecting i := by
  cases h with
  | @collected i hle => exact ⟨i, rfl⟩
  | _ => first | exact absurd hp Bool.false_ne_true | exact absurd hq.symm Bool.false_ne_true

/-- Only a worker with the packet in hand invokes the callback. -/
theorem Call.callbacks_of_steps {c c' : Call} {ev : Event} (hs : c.Sound) (h : Steps c ev c')
    (hev : ∀ stage sz choice, ev ≠ .handle stage sz choice) : c'.callbacks = c.callbacks := by
  cases h with
  | submit hsub => exact (submitFrame_of_submits hs hsub).callbacks
  | register hsub =>
      cases hsub with
      | insert hpc => rfl
  | complete hp | completeFailed hp | dequeue hp | takeFailed hp => rfl
  | _ => exact absurd rfl (hev _ _ _)

namespace State

/-- The zero-key packets in the queue. -/
def zeros {n : ℕ} (s : State n) : ℕ := s.queue.count .zero

/-- The workers that have ended. -/
def ended {n : ℕ} (s : State n) : Finset (Fin n) :=
  Finset.univ.filter fun w => (s.workers w).pc = .exited

/-- The workers that have not. -/
def live {n : ℕ} (s : State n) : Finset (Fin n) :=
  Finset.univ.filter fun w => (s.workers w).pc ≠ .exited

/-- Worker `w` takes a zero-key packet in this step. -/
def takesZero {n : ℕ} (s : State n) (l : Label n) (w : Fin n) : Bool :=
  l = .worker w .go && (s.workers w).pc = .waiting && s.queue.head? = some .zero

/-- **History**: how many zero-key packets each worker has taken. -/
def noteZeros {n : ℕ} (taken : Fin n → ℕ) (s : State n) (l : Label n) (_ : State n) :
    Fin n → ℕ :=
  fun w => taken w + (s.takesZero l w).toNat

end State

/-- The service with this history. -/
def draining (n : ℕ) : Machine (State n × (Fin n → ℕ)) (Label n) :=
  (service n).withHistory (fun _ => 0) State.noteZeros

namespace State

/-! ### The sum -/

/-- **What a step does to the sum** of the zero-key packets and the threads that have ended:
it does not go down, and it makes up for what was posted. -/
structure Drains {n : ℕ} (s t : State n) : Prop where
  sum : s.zeros + s.ended.card ≤ t.zeros + t.ended.card
  posted : t.runPc.posted + (s.zeros + s.ended.card) ≤ s.runPc.posted + (t.zeros + t.ended.card)

/-- A thread that has ended does not come back. -/
theorem Turns.exited {n : ℕ} {s t : State n} {l : Label n} (hturn : s.Turns l t) {w : Fin n}
    (hw : (s.workers w).pc = .exited) : (t.workers w).pc = .exited := by
  have hturned := hturn.worker w
  generalize s.workers w = v at hw hturned
  generalize t.workers w = v' at hturned
  cases hturned with
  | same | taken => exact hw
  | resumed hpc | signals hpc =>
      rw [hw] at hpc
      cases hpc
  | proceeds h =>
      have hactive := h.active
      rw [hw] at hactive
      exact absurd hactive Bool.false_ne_true

/-- The threads that have ended are still there after a step. -/
theorem ended_subset {n : ℕ} {s t : State n} {l : Label n} (hturn : s.Turns l t) :
    s.ended ⊆ t.ended := by
  intro w hw
  simp only [ended, Finset.mem_filter, Finset.mem_univ, true_and] at hw ⊢
  exact hturn.exited hw

/-- A step that takes no zero-key packet, and puts those it posts into the queue,
satisfies `Drains`. -/
theorem Drains.of_zeros {n : ℕ} {s t : State n} {l : Label n} (hturn : s.Turns l t)
    (hzeros : s.zeros ≤ t.zeros)
    (hposted : t.runPc.posted + s.zeros ≤ s.runPc.posted + t.zeros) : s.Drains t := by
  have hended : s.ended.card ≤ t.ended.card := Finset.card_le_card (ended_subset hturn)
  exact ⟨by omega, by omega⟩

/-- A worker that takes a zero-key packet ends. -/
theorem Drains.of_zero {n : ℕ} {s t : State n} {l : Label n} {w : Fin n} {rest : List Packet}
    (hturn : s.Turns l t) (hw : (s.workers w).pc = .waiting) (hqueue : s.queue = .zero :: rest)
    (hrest : t.queue = rest) (hexited : (t.workers w).pc = .exited) (hrun : t.runPc = s.runPc) :
    s.Drains t := by
  have hzeros : s.zeros = t.zeros + 1 := by
    rw [zeros, zeros, hqueue, hrest, List.count_cons_self]
  have hended : s.ended.card < t.ended.card := by
    refine Finset.card_lt_card ⟨ended_subset hturn, fun hback => ?_⟩
    have hmem : w ∈ s.ended := hback (by simp [ended, hexited])
    simp [ended, hw] at hmem
  have hposted : t.runPc.posted = s.runPc.posted := by rw [hrun]
  exact ⟨by omega, by omega⟩

/-- Waking `run()` posts nothing. -/
theorem posted_woken (p : RunPc) : p.woken.posted ≤ p.posted := by
  rw [RunPc.woken]
  split
  · exact Nat.zero_le _
  · exact Nat.le_refl _

/-- A worker with a packet in hand does not touch the queue. -/
theorem queue_handling {n : ℕ} {s t : State n} {w : Fin n} {o : OpId} {sz : ℕ} {stage : Stage}
    {choice : WorkerChoice} (hstep : s.handlingStep w o sz stage choice = some t) :
    t.queue = s.queue ∧ t.runPc.posted ≤ s.runPc.posted := by
  have hwoken : s.wakeAll.runPc.posted ≤ s.runPc.posted := by
    rw [s.wakeAll_runPc]
    exact posted_woken s.runPc
  cases handles_of_handlingStep hstep with
  | hold | dropRef | addTransferred | setDone | invoke | stopStore | ret e | dropTask exits
  | dropRaw exits hit => exact ⟨rfl, Nat.le_refl _⟩
  | lookup =>
      rw [lookup]
      split <;> exact ⟨rfl, Nat.le_refl _⟩
  | stop =>
      rw [stopGuard]
      split <;> exact ⟨rfl, Nat.le_refl _⟩
  | stopWake | fail => exact ⟨s.wakeAll_queue, hwoken⟩

/-- A worker that `GetQueuedCompletionStatus` refused takes no zero-key packet. -/
theorem drains_portError {n : ℕ} {s s' : State n} {l : Label n} {w : Fin n} (code : ℕ)
    (allocated : Bool) (hturn : s.Turns l (s'.portError w code allocated))
    (hzeros : s'.zeros = s.zeros) (hrun : s'.runPc = s.runPc) :
    s.Drains (s'.portError w code allocated) := by
  obtain ⟨v, -, -, -, hqueue, -⟩ := portError_eq s' w code allocated
  have hpc : (s'.portError w code allocated).runPc = s.runPc := by
    rw [← hrun, portError]
    split <;> rfl
  have hsame : (s'.portError w code allocated).zeros = s.zeros := by
    rw [← hzeros, zeros, zeros, hqueue]
  exact .of_zeros hturn (by rw [hsame]) (by rw [hsame, hpc])

/-- A step of a worker at the head of its loop satisfies `Drains`. -/
theorem drains_waiting {n : ℕ} {s t : State n} {w : Fin n} {choice : WorkerChoice}
    (hturn : s.Turns (.worker w choice) t) (hw : (s.workers w).pc = .waiting)
    (hstep : s.waitingStep w choice = some t) : s.Drains t := by
  cases takes_of_waitingStep hstep with
  | zero hqueue => exact .of_zero hturn hw hqueue rfl (by simp [setPc, setWorker]) rfl
  | @op o sz rest hqueue =>
      have hzeros : s.zeros = rest.count .zero := by
        rw [zeros, hqueue, List.count_cons_of_ne Packet.noConfusion]
      exact .of_zeros hturn (by rw [hzeros]; exact Nat.le_refl _)
        (by rw [hzeros]; exact Nat.le_refl _)
  | opFailed hqueue allocated =>
      refine drains_portError _ _ hturn ?_ rfl
      rw [zeros, zeros, hqueue, List.count_cons_of_ne Packet.noConfusion]
      rfl
  | portFailed code allocated => exact drains_portError _ _ hturn rfl rfl

/-- A step of a worker satisfies `Drains`. -/
theorem drains_worker {n : ℕ} {s t : State n} {w : Fin n} {choice : WorkerChoice}
    (hstep : s.workerStep w choice = some t) : s.Drains t := by
  have hturn : s.Turns (.worker w choice) t := turns_worker hstep
  rw [workerStep] at hstep
  split at hstep
  · rename_i hw
    exact drains_waiting hturn hw hstep
  · obtain ⟨hqueue, hposted⟩ := queue_handling hstep
    have hzeros : t.zeros = s.zeros := by rw [zeros, zeros, hqueue]
    exact .of_zeros hturn (by rw [hzeros]) (by rw [hzeros]; omega)
  · obtain ⟨-, rfl⟩ := Option.ite_none_right_eq_some.mp hstep |>.imp_right Option.some.inj
    exact .of_zeros hturn (Nat.le_refl _) (Nat.le_refl _)
  · cases hstep
  · cases hstep

/-- A step of `run()` that leaves the queue alone and goes to no later packet satisfies `Drains`.
-/
theorem Drains.of_run {n : ℕ} {s t : State n} {l : Label n} (hturn : s.Turns l t)
    (hqueue : t.queue = s.queue) (hposted : t.runPc.posted ≤ s.runPc.posted) : s.Drains t := by
  have hzeros : t.zeros = s.zeros := by rw [zeros, zeros, hqueue]
  exact .of_zeros hturn (by rw [hzeros]) (by rw [hzeros]; omega)

/-- A turn of a loop over the storages satisfies `Drains`. -/
theorem drains_takeException {n : ℕ} {s : State n} {l : Label n} {i : Fin n} {next : RunPc}
    (hturn : s.Turns l (s.takeException i next)) (hnext : next.posted = 0) :
    s.Drains (s.takeException i next) := by
  refine .of_run hturn ?_ ?_
  · rw [takeException]
    split <;> rfl
  · rw [takeException]
    split
    · exact hnext ▸ Nat.zero_le _
    · exact Nat.zero_le _

/-- A step of `run()` satisfies `Drains`. -/
theorem drains_run {n : ℕ} {s t : State n} {choice : RunChoice}
    (hstep : s.runStep choice = some t) : s.Drains t := by
  have hturn : s.Turns (.run choice) t := turns_run hstep
  cases runs_of_runStep hstep with
  | guard hpc hrunning => exact .of_run hturn rfl (Nat.le_refl _)
  | scan i hpc | collect i hpc => exact drains_takeException hturn rfl
  | post i hpc =>
      have hzeros : ({ s with queue := s.queue ++ [.zero], runPc := .posting (i + 1) } :
          State n).zeros = s.zeros + 1 := by
        simp only [zeros, List.count_append, List.count_singleton_self]
      refine .of_zeros hturn (by omega) ?_
      rw [hzeros, hpc]
      simp only [RunPc.posted]
      omega
  | enter hpc hidle | spurious hpc | scanned hpc hall | start hpc | resume i hpc hw | skip i hpc hw
  | resumed hpc hall | sleep hpc | posted hpc hall | join i hpc hw | joined hpc hall
  | collected hpc hall => exact .of_run hturn rfl (Nat.zero_le _)

/-- **Every step** keeps the sum, and makes up for what it posts. -/
theorem drains_of_step {n : ℕ} {s t : State n} {l : Label n} (hstep : s.step l = some t) :
    s.Drains t := by
  have hturn : s.Turns l t := turns_of_step hstep
  rw [step.eq_def] at hstep
  split at hstep
  · cases hstep
  · cases l with
    | submit o choice =>
        obtain ⟨a, -, rfl⟩ := Option.map_eq_some_iff.mp hstep
        cases a <;> exact .of_run hturn rfl (Nat.le_refl _)
    | complete o sz =>
        obtain ⟨-, rfl⟩ := Option.ite_none_right_eq_some.mp hstep |>.imp_right Option.some.inj
        have hzeros : s.zeros ≤ (s.queue ++ [Packet.op o sz]).count .zero := by
          rw [zeros, List.count_append]
          exact Nat.le_add_right _ _
        exact .of_zeros hturn hzeros (Nat.add_le_add_left hzeros _)
    | completeFailed o code =>
        obtain ⟨-, rfl⟩ := Option.ite_none_right_eq_some.mp hstep |>.imp_right Option.some.inj
        have hzeros : s.zeros ≤ (s.queue ++ [Packet.opFailed o code]).count .zero := by
          rw [zeros, List.count_append]
          exact Nat.le_add_right _ _
        exact .of_zeros hturn hzeros (Nat.add_le_add_left hzeros _)
    | worker w choice => exact drains_worker hstep
    | run choice => exact drains_run hstep

/-! ### The packets a worker takes -/

/-- **The test of the key**: a worker that takes a packet leaves its loop exactly when the key
is zero. -/
theorem exited_iff_key {n : ℕ} {s t : State n} {w : Fin n} (this : ServicePtr)
    (hw : (s.workers w).pc = .waiting) (hstep : s.step (.worker w .go) = some t) :
    ∃ p rest, s.queue = p :: rest ∧ t.queue = rest ∧
      ((t.workers w).pc = .exited ↔ p.key this = 0) ∧
      (p.op? ≠ none → p.key this = this ∧ (t.workers w).pc ≠ .exited) := by
  rw [step.eq_def] at hstep
  split at hstep
  · cases hstep
  · simp only [workerStep, hw] at hstep
    cases takes_of_waitingStep hstep with
    | @zero rest hqueue =>
        exact ⟨.zero, rest, hqueue, rfl, by simp [setPc, setWorker, Packet.key, Packet.keyed],
          fun hop => absurd rfl hop⟩
    | @op o sz rest hqueue =>
        have hkey : (Packet.op o sz).key this ≠ 0 := this.property
        exact ⟨.op o sz, rest, hqueue, rfl, by simp [setPc, setWorker, hkey],
          fun _ => ⟨rfl, by simp [setPc, setWorker]⟩⟩

/-- A worker that takes a zero-key packet was in its loop, and has ended. -/
theorem exited_of_takesZero {n : ℕ} {s t : State n} {l : Label n} {w : Fin n}
    (htakes : s.takesZero l w = true) (hstep : s.step l = some t) :
    (s.workers w).pc = .waiting ∧ (t.workers w).pc = .exited := by
  simp only [takesZero, Bool.and_eq_true, decide_eq_true_eq] at htakes
  obtain ⟨⟨rfl, hw⟩, hhead⟩ := htakes
  obtain ⟨p, rest, hqueue, -, hiff, -⟩ := exited_iff_key ⟨1, Nat.one_ne_zero⟩ hw hstep
  obtain rfl : p = .zero := by simpa [hqueue] using hhead
  exact ⟨hw, hiff.mpr rfl⟩

/-- **The history of the zero-key packets**: a worker takes one at most, and has ended then. -/
def TakenOnce {n : ℕ} (s : State n) (taken : Fin n → ℕ) : Prop :=
  ∀ w, taken w = 0 ∨ taken w = 1 ∧ (s.workers w).pc = .exited

/-- The step lemma of `TakenOnce`: every step keeps it, with the history. -/
theorem TakenOnce.step {n : ℕ} {s t : State n} {l : Label n} {taken : Fin n → ℕ}
    (h : s.TakenOnce taken) (hstep : s.step l = some t) :
    t.TakenOnce (noteZeros taken s l t) := by
  intro w
  rw [noteZeros]
  cases htakes : s.takesZero l w with
  | false =>
      rcases h w with hzero | ⟨hone, hw⟩
      · exact .inl hzero
      · exact .inr ⟨hone, (turns_of_step hstep).exited hw⟩
  | true =>
      obtain ⟨hw, hw'⟩ := exited_of_takesZero htakes hstep
      rcases h w with hzero | ⟨-, hexited⟩
      · exact .inr ⟨by rw [hzero]; rfl, hw'⟩
      · exact absurd (hw.symm.trans hexited) WorkerPc.noConfusion

/-! ### The end of the run -/

/-- **Between two runs** the threads have not been started, or have ended; and they have
ended when `run()` comes to its last loop. -/
structure Settled {n : ℕ} (s : State n) : Prop where
  idle : s.runPc.started = false →
    (∀ w, s.workers w = {}) ∨ ∀ w, (s.workers w).pc = .exited
  collecting : ∀ i, s.runPc = .collecting i → ∀ w, (s.workers w).pc = .exited

/-- Nothing is asked while the workers are active. -/
theorem Settled.of_serving {n : ℕ} {t : State n} (h : t.runPc.serving = true) : t.Settled := by
  refine ⟨fun hp => ?_, fun i hi => ?_⟩
  · exact absurd ((RunPc.started_of_serving h).symm.trans hp) Bool.noConfusion
  · rw [hi] at h
    exact absurd h Bool.false_ne_true

/-- The step lemma of `Settled`: every turn keeps it. -/
theorem Settled.step {n : ℕ} {s t : State n} {l : Label n} (ho : s.Ordered) (h : s.Settled)
    (hturn : s.Turns l t) : t.Settled := by
  cases hturn with
  | quiet hworkers hrun hflags =>
      refine ⟨?_, ?_⟩ <;> rw [hrun, hworkers]
      · exact h.idle
      · exact h.collecting
  | enter hpc hworkers hrun hflags =>
      refine ⟨fun _ => ?_, fun i hi => ?_⟩
      · rw [hworkers]
        exact h.idle (by rw [hpc]; rfl)
      · rw [hrun] at hi
        cases hi
  | throw i hworkers hrun hflags hpc =>
      refine ⟨fun _ => ?_, fun j hj => ?_⟩
      · have hsettled : (∀ w, s.workers w = {}) ∨ ∀ w, (s.workers w).pc = .exited := by
          cases hstarted : s.runPc.started with
          | false => exact h.idle hstarted
          | true =>
              cases hp : s.runPc with
              | collecting j => exact .inr (h.collecting j hp)
              | _ =>
                  rw [hp] at hpc hstarted
                  exact absurd (hpc.symm.trans hstarted) Bool.noConfusion
        refine hsettled.imp (fun hnew => ?_) fun hexited => ?_
        · exact forall_workers_update (P := fun _ v => v = {}) hnew hworkers (by rw [hnew])
        · exact forall_workers_update (P := fun _ v => v.pc = .exited) hexited hworkers (hexited i)
      · rw [hrun] at hj
        cases hj
  | start hpc hworkers hrun hflags | resume i hpc hw hworkers hrun hflags =>
      exact .of_serving (by rw [hrun]; rfl)
  | @advance _ _ p hpc hadv hworkers hflags =>
      refine ⟨fun hp => ?_, fun i hi => ?_⟩
      · rw [hworkers]
        cases hstarted : p.started with
        | false => exact h.idle (hpc ▸ hstarted)
        | true =>
            obtain ⟨i, rfl⟩ := hadv.collecting hstarted hp
            exact .inr (h.collecting i hpc)
      · rw [hi] at hadv
        rw [hworkers]
        cases hadv with
        | joined hle => exact fun w => ho.joined _ hpc w (Nat.lt_of_lt_of_le w.isLt hle)
        | collect j hnone => exact h.collecting _ hpc
  | proceed w hw hworkers hrun hflags =>
      exact .of_serving (by rw [hrun]; exact ho.active w hw.active)
  | stopStore w hw hworkers hrun hflags =>
      exact .of_serving (by rw [hrun]; exact ho.active w (by rw [hw]; rfl))
  | stopWake w hw hworkers hrun hflags | failWake w hw hworkers hrun hflags =>
      refine .of_serving ?_
      rw [hrun, RunPc.serving_woken]
      exact ho.active w (by rw [hw]; rfl)

/-- **When `run()` returns** its threads have ended. -/
theorem Settled.exited {n : ℕ} {s t : State n} (h : s.Settled) (hret : s.ReturnsFrom t) :
    ∀ w, (t.workers w).pc = .exited := by
  cases hret with
  | ends hpc hle => exact h.collecting _ hpc
  | throws i e hpc he =>
      have hexited : ∀ w, (s.workers w).pc = .exited := by
        rcases hpc with hpc | hpc
        · rcases h.idle (by rw [hpc]; rfl) with hnew | hexited
          · rw [hnew] at he
            cases he
          · exact hexited
        · exact h.collecting _ hpc
      exact forall_workers_update (P := fun _ v => v.pc = .exited) hexited rfl (hexited i)

/-- Only a worker invokes callbacks. -/
theorem callbacks_of_step {n : ℕ} {s t : State n} {l : Label n} (hcoh : s.Coherent)
    (hstep : s.step l = some t) (hl : ∀ w choice, l ≠ .worker w choice) (o : OpId) :
    (t.calls o).callbacks = (s.calls o).callbacks := by
  rcases (moves_of_step hcoh hstep).calls o with hsame | ⟨ev, hev, hafter⟩
  · rw [hsame]
  · refine Call.callbacks_of_steps (hcoh o).sound (Call.steps_of_after hafter) ?_
    rintro stage sz choice rfl
    cases l with
    | worker w choice => exact absurd rfl (hl w choice)
    | run choice | submit o' choice | complete o' sz | completeFailed o' code => cases hev

/-- A thread that has ended takes no step. -/
theorem not_worker_of_exited {n : ℕ} {s t : State n} {l : Label n}
    (hexited : ∀ w, (s.workers w).pc = .exited) (hstep : s.step l = some t) (w : Fin n)
    (choice : WorkerChoice) : l ≠ .worker w choice := by
  rintro rfl
  rw [step.eq_def] at hstep
  split at hstep
  · cases hstep
  · simp only [workerStep, hexited] at hstep
    cases hstep

/-- **The workers are drained**: what holds from the posting of the zero-key packets on. -/
structure DrainsWorkers {n : ℕ} (this : ServicePtr) (s : State n) (taken : Fin n → ℕ) :
    Prop where
  /-- No worker has taken two zero-key packets. -/
  once : ∀ w, taken w ≤ 1
  /-- A worker leaves its loop with a zero-key packet, and with no other. -/
  byKey : ∀ w t, (s.workers w).pc = .waiting → s.step (.worker w .go) = some t →
    ∃ p rest, s.queue = p :: rest ∧ t.queue = rest ∧
      ((t.workers w).pc = .exited ↔ p.key this = 0) ∧
      (p.op? ≠ none → p.key this = this ∧ (t.workers w).pc ≠ .exited)
  /-- When all packets are posted there is, from then on, one for every thread that has not
  ended. -/
  covered : s.runPc = .posting n → ∀ t, (service n).RunWhere (fun _ _ => True) s t →
    t.live.card ≤ t.zeros
  /-- No worker waits at an empty queue then. -/
  unblocked : s.runPc = .posting n → ∀ t, (service n).RunWhere (fun _ _ => True) s t →
    ∀ w, (t.workers w).pc = .waiting → t.queue ≠ []
  /-- When `run()` has returned its threads have ended, and no callback is invoked any more. -/
  silent : ∀ t, s.step (.run .go) = some t → t.runPc = .outside →
    (∀ w, (t.workers w).pc = .exited) ∧
    ∀ u, (service n).RunWhere (fun _ _ => True) t u →
      ∀ o, (u.calls o).callbacks = (t.calls o).callbacks

/-- The threads that have not ended are covered by the sum. -/
theorem live_le_zeros {n : ℕ} {s : State n} (h : n ≤ s.zeros + s.ended.card) :
    s.live.card ≤ s.zeros := by
  have hall : s.ended.card + s.live.card = n := by
    rw [ended, live, Finset.card_filter_add_card_filter_not, Finset.card_univ,
      Fintype.card_fin]
  omega

/-- A waiting worker is covered by a packet. -/
theorem queue_ne_nil_of_live {n : ℕ} {s : State n} {w : Fin n} (h : s.live.card ≤ s.zeros)
    (hw : (s.workers w).pc = .waiting) : s.queue ≠ [] := by
  intro hnil
  have hmem : w ∈ s.live := by simp [live, hw]
  have hpos : 0 < s.live.card := Finset.card_pos.mpr ⟨w, hmem⟩
  have hzero : s.zeros = 0 := by rw [zeros, hnil, List.count_nil]
  omega

/-- When all threads have ended no callback is invoked any more. -/
theorem silent_of_exited {n : ℕ} {s t : State n} (hcoh : s.Coherent)
    (hexited : ∀ w, (s.workers w).pc = .exited)
    (hrun : (service n).RunWhere (fun _ _ => True) s t) (o : OpId) :
    (t.calls o).callbacks = (s.calls o).callbacks := by
  have hall : t.Coherent ∧ (∀ w, (t.workers w).pc = .exited) ∧
      (t.calls o).callbacks = (s.calls o).callbacks := by
    refine hrun.invariant (I := fun t => t.Coherent ∧ (∀ w, (t.workers w).pc = .exited) ∧
      (t.calls o).callbacks = (s.calls o).callbacks) ⟨hcoh, hexited, rfl⟩ ?_
    rintro t l u ⟨hcoh, hexited, hsame⟩ - hstep
    refine ⟨(moves_of_step hcoh hstep).coherent hcoh,
      fun w => (turns_of_step hstep).exited (hexited w), ?_⟩
    rw [← hsame]
    exact callbacks_of_step hcoh hstep (not_worker_of_exited hexited hstep) o
  exact hall.2.2

end State

/-- **In every run** the sum makes up for what `run()` has posted, and the histories
are right. -/
theorem draining_invariant {n : ℕ} {p : State n × (Fin n → ℕ)}
    (h : (draining n).Reachable p) :
    p.1.Ordered ∧ p.1.Settled ∧ p.1.TakenOnce p.2 ∧
      p.1.runPc.posted ≤ p.1.zeros + p.1.ended.card := by
  refine h.invariant (I := fun p => p.1.Ordered ∧ p.1.Settled ∧ p.1.TakenOnce p.2 ∧
    p.1.runPc.posted ≤ p.1.zeros + p.1.ended.card)
    ⟨State.ordered_init n, ⟨fun _ => .inl fun _ => rfl, fun i hi => by cases hi⟩,
      fun _ => .inl rfl, Nat.zero_le _⟩ ?_
  rintro ⟨s, taken⟩ l ⟨t, taken'⟩ ⟨ho, hs, ht, hp⟩ hstep
  obtain ⟨hgo, htaken⟩ := Machine.step_withHistory hstep
  dsimp only at ho hs ht hp hgo htaken ⊢
  have hturn := State.turns_of_step hgo
  obtain ⟨-, hposted⟩ := State.drains_of_step hgo
  refine ⟨ho.step hturn, hs.step ho hturn, htaken ▸ ht.step hgo, ?_⟩
  omega

/-- **Shutdown drains every worker**, for any number of workers, whatever the queue holds and
in whatever order the threads move. -/
theorem shutdown_drains {n : ℕ} (this : ServicePtr) {s : State n} {taken : Fin n → ℕ}
    (h : (draining n).Reachable (s, taken)) : s.DrainsWorkers this taken := by
  obtain ⟨-, hsettled, htaken, hposted⟩ := draining_invariant h
  have hreach : (service n).Reachable s := Machine.RunWhere.forget (fun _ _ _ => trivial) h
  have hcovered : s.runPc = .posting n → ∀ t, (service n).RunWhere (fun _ _ => True) s t →
      t.live.card ≤ t.zeros := by
    intro hpc t hrun
    dsimp only at hposted
    rw [hpc] at hposted
    exact State.live_le_zeros (hrun.invariant (I := fun t => n ≤ t.zeros + t.ended.card) hposted
      fun t l u hle _ hstep => hle.trans (State.drains_of_step hstep).sum)
  constructor
  · intro w
    rcases htaken w with hzero | ⟨hone, -⟩
    · exact hzero.trans_le (Nat.zero_le 1)
    · exact Nat.le_of_eq hone
  · intro w t hw hstep
    exact State.exited_iff_key this hw hstep
  · exact hcovered
  · intro hpc t hrun w hw
    exact State.queue_ne_nil_of_live (hcovered hpc t hrun) hw
  · intro t hstep hret
    have hgo : (service n).step s (.run .go) = some t := hstep
    have hone : (service n).RunWhere (fun _ _ => True) s t := .single trivial hgo
    have hcoh : t.Coherent := service_coherent (hreach.trans hone)
    have hexited : ∀ w, (t.workers w).pc = .exited :=
      hsettled.exited (State.returnsFrom_of_step hstep hret)
    exact ⟨hexited, fun u hrun o => State.silent_of_exited hcoh hexited hrun o⟩

/-! ### A concrete run -/

/-- The workers drain when there is one and `run()` has posted its packet. -/
theorem shutdown_drains_posted :
    ∃ (s : State 1) (taken : Fin 1 → ℕ), s.runPc = .posting 1 ∧
      s.DrainsWorkers ⟨1, Nat.one_ne_zero⟩ taken := by
  obtain ⟨p, hrun, hpc⟩ := Machine.exists_runWhere (M := draining 1) (G := fun _ _ => True)
    (s := (draining 1).init) (P := fun p => p.1.runPc = .posting 1)
    (startUp ++ [.run .spurious, .run .go]) (by decide)
  exact ⟨p.1, p.2, hpc, shutdown_drains ⟨1, Nat.one_ne_zero⟩ hrun⟩

end Netknot.Win32
