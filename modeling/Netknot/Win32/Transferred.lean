import Netknot.Win32.Delivery
import Netknot.Win32.Progress
import Netknot.Win32.References

/-!
# What a Callback is Told

A callback reads the status and the size in its task, and so can everybody else who holds the
task. The worker that is to invoke the callback adds the size `GetQueuedCompletionStatus` gave it
to what stands there, stores the status, and then invokes the callback. Between the kernel and
the callback the size goes through the queue and through the locals of one worker of many.

The history of the kernel's answers says that nothing gets lost or mixed up on this way: a
callback is told what the kernel transferred for its operation.

## Main results

* `Carries.of_step`: a size gets into the queue or into the hands of a worker from the kernel.
* `completion_told`: what the status and the size in a task are, in every state of every run.
-/

namespace Netknot.Win32

/-- What the kernel has answered to the operations that completed. -/
abbrev Transferred := OpId → Option ℕ

/-- **History**: the sizes the kernel answered. -/
def noteTransferred {n : ℕ} (transferred : Transferred) (_ : State n) (l : Label n)
    (_ : State n) : Transferred :=
  match l with
  | .complete o sz => Function.update transferred o (some sz)
  | _ => transferred

/-- The service with this history. -/
def transferring (n : ℕ) : Machine (State n × Transferred) (Label n) :=
  (service n).withHistory (fun _ => none) noteTransferred

/-! ### Where a size comes from -/

/-- A worker has a packet in hand that it had before, or it waited for one. -/
theorem Worker.Turned.handling {v v' : Worker} (h : v.Turned v') {o : OpId} {sz : ℕ}
    {stage : Stage} (hpc : v'.pc = .handling o sz stage) :
    (∃ stage', v.pc = .handling o sz stage') ∨ v.pc = .waiting := by
  cases h with
  | same | taken => exact .inl ⟨stage, hpc⟩
  | resumed hv => cases hpc
  | signals hv =>
      cases hpc
      exact .inl ⟨_, hv⟩
  | proceeds hmove =>
      cases hmove with
      | take o' sz' hv | leave hv | fails _ e hv => exact .inr hv
      | returns hv => cases hpc
      | handle _ hv | ret e hv =>
          cases hpc
          exact .inl ⟨_, hv⟩
      | finish hv =>
          dsimp only at hpc
          split at hpc <;> cases hpc

namespace State

/-- A packet with this size is in the queue, or in the hands of a worker. -/
def Carries {n : ℕ} (s : State n) (o : OpId) (sz : ℕ) : Prop :=
  .op o sz ∈ s.queue ∨ ∃ w stage, (s.workers w).pc = .handling o sz stage

section

variable {n : ℕ} {s t : State n} {o : OpId} {sz : ℕ}

/-- No packet gets into the queue, and one worker at most takes one. -/
theorem Carries.of_update {w : Fin n} {v : Worker} (h : t.Carries o sz)
    (hqueue : ∀ p ∈ t.queue, p ∈ s.queue) (hworkers : t.workers = Function.update s.workers w v)
    (hv : ∀ stage, v.pc = .handling o sz stage → s.Carries o sz) : s.Carries o sz := by
  rcases h with hmem | ⟨w', stage, hw'⟩
  · exact .inl (hqueue _ hmem)
  · rw [hworkers] at hw'
    by_cases heq : w' = w
    · subst heq
      rw [Function.update_self] at hw'
      exact hv stage hw'
    · rw [Function.update_of_ne heq] at hw'
      exact .inr ⟨w', stage, hw'⟩

/-- The workers and the queue stay as they are, a packet of `run()` apart. -/
theorem Carries.of_eq (h : t.Carries o sz) (hqueue : ∀ p ∈ t.queue, p ∈ s.queue ∨ p = .zero)
    (hworkers : t.workers = s.workers) : s.Carries o sz := by
  rcases h with hmem | hheld
  · rcases hqueue _ hmem with hmem | hzero
    · exact .inl hmem
    · cases hzero
  · rw [hworkers] at hheld
    exact .inr hheld

/-- A worker that `GetQueuedCompletionStatus` refused has no packet in hand. -/
theorem carries_portError {s' : State n} {w : Fin n} {code : ℕ} {allocated : Bool}
    (h : (s'.portError w code allocated).Carries o sz) (hw : (s.workers w).pc = .waiting)
    (hqueue : ∀ p ∈ s'.queue, p ∈ s.queue) (hworkers : s'.workers = s.workers) :
    s.Carries o sz := by
  obtain ⟨v, hv, -, -, hq, hset⟩ := portError_eq s' w code allocated
  refine h.of_update (hq ▸ hqueue) (hworkers ▸ hset) fun stage hpc => ?_
  rcases hv with rfl | hv
  · rw [hworkers, hw] at hpc
    cases hpc
  · rw [hv] at hpc
    cases hpc

/-- A step of a worker: the packet it has in hand afterwards it had before, or it is the first of
the queue. -/
theorem carries_worker {w : Fin n} {choice : WorkerChoice}
    (hstep : s.workerStep w choice = some t) (h : t.Carries o sz) : s.Carries o sz := by
  rw [workerStep] at hstep
  split at hstep
  · rename_i hw
    cases takes_of_waitingStep hstep with
    | @zero rest hqueue =>
        refine h.of_update (fun p hp => hqueue ▸ List.mem_cons_of_mem _ hp) rfl ?_
        intro stage hpc
        cases hpc
    | @op o' sz' rest hqueue =>
        refine h.of_update (fun p hp => hqueue ▸ List.mem_cons_of_mem _ hp) rfl ?_
        intro stage hpc
        cases hpc
        exact .inl (hqueue ▸ List.mem_cons_self)
    | opFailed hqueue allocated =>
        exact carries_portError h hw (fun p hp => hqueue ▸ List.mem_cons_of_mem _ hp) rfl
    | portFailed code allocated => exact carries_portError h hw (fun p hp => hp) rfl
  · rename_i o' sz' stage' hw
    obtain ⟨v, hstores⟩ := stores_handling hw hstep
    have hturned := (turns_handling hw hstep).worker w
    rw [hstores.workers, Function.update_self] at hturned
    refine h.of_update (fun p hp => (queue_handling hstep).1 ▸ hp) hstores.workers ?_
    intro stage hpc
    rcases hturned.handling hpc with ⟨stage'', hheld⟩ | hwaiting
    · exact .inr ⟨w, stage'', hheld⟩
    · rw [hw] at hwaiting
      cases hwaiting
  · obtain ⟨-, rfl⟩ := Option.ite_none_right_eq_some.mp hstep |>.imp_right Option.some.inj
    refine h.of_update (fun p hp => hp) rfl fun stage hpc => ?_
    cases hpc
  · cases hstep
  · cases hstep

/-- A step of `run()` brings no size with it: it queues packets that belong to no operation. -/
theorem carries_run {choice : RunChoice} (hstep : s.runStep choice = some t)
    (h : t.Carries o sz) : s.Carries o sz := by
  have htaken : ∀ (i : Fin n) (next : RunPc), (s.takeException i next).Carries o sz →
      s.Carries o sz := by
    intro i next h
    rw [takeException] at h
    split at h
    · exact h
    · refine h.of_update (w := i) (fun p hp => hp) rfl fun stage hpc => ?_
      exact .inr ⟨i, stage, hpc⟩
  cases runs_of_runStep hstep with
  | scan i hpc | collect i hpc => exact htaken i _ h
  | resume i hpc hw =>
      refine h.of_update (w := i) (fun p hp => hp) rfl fun stage hpc => ?_
      cases hpc
  | post i hpc =>
      exact h.of_eq (fun p hp => (List.mem_append.mp hp).imp_right List.mem_singleton.mp) rfl
  | guard hpc hrunning | enter hpc hidle | spurious hpc | scanned hpc hall | start hpc
  | skip i hpc hw | resumed hpc hall | sleep hpc | posted hpc hall | join i hpc hw
  | joined hpc hall | collected hpc hall => exact h

/-- **A size comes from the kernel**: a step brings it into the service only as the
kernel's answer. -/
theorem Carries.of_step {l : Label n} (hstep : s.step l = some t) (h : t.Carries o sz) :
    s.Carries o sz ∨ l = .complete o sz := by
  obtain ⟨-, hgo⟩ := Option.ite_none_left_eq_some.mp hstep
  cases l with
  | submit o' choice =>
      obtain ⟨a, -, rfl⟩ := Option.map_eq_some_iff.mp hgo
      cases a <;> exact .inl h
  | complete o' sz' =>
      obtain ⟨-, rfl⟩ := Option.ite_none_right_eq_some.mp hgo |>.imp_right Option.some.inj
      rcases h with hmem | hheld
      · rcases List.mem_append.mp hmem with hmem | hmem
        · exact .inl (.inl hmem)
        · obtain ⟨rfl, rfl⟩ := Packet.op.inj (List.mem_singleton.mp hmem)
          exact .inr rfl
      · exact .inl (.inr hheld)
  | completeFailed o' code =>
      obtain ⟨-, rfl⟩ := Option.ite_none_right_eq_some.mp hgo |>.imp_right Option.some.inj
      rcases h with hmem | hheld
      · rcases List.mem_append.mp hmem with hmem | hmem
        · exact .inl (.inl hmem)
        · cases List.mem_singleton.mp hmem
      · exact .inl (.inr hheld)
  | worker w choice => exact .inl (carries_worker hgo h)
  | run choice => exact .inl (carries_run hgo h)

/-- While an operation is pending in the kernel the service has no size of it. -/
theorem Coherent.not_carries (hcoh : s.Coherent) (hpending : (s.calls o).packet = .pending) :
    ¬s.Carries o sz := by
  rintro (hmem | ⟨w, stage, hw⟩)
  · have hpackets := (hcoh o).packets
    rw [hpending] at hpackets
    have hin : Packet.op o sz ∈ s.packetsOf o :=
      List.mem_filter.mpr ⟨hmem, decide_eq_true rfl⟩
    rw [show s.packetsOf o = [] from hpackets] at hin
    cases hin
  · have hheld := (hcoh o).held w stage (by rw [hw]; rfl)
    rw [hpending] at hheld
    cases hheld

end

end State

/-! ### What stands in a task -/

/-- The worker has stored the status. -/
def PacketPhase.marked : PacketPhase → Bool
  | .held .marked => true
  | p => p.invoked

/-- The worker has added the size. -/
def PacketPhase.added : PacketPhase → Bool
  | .held .counted => true
  | p => p.marked

/-- Both the status and the size are there behind the invocation. -/
theorem PacketPhase.marked_of_invoked {p : PacketPhase} (h : p.invoked = true) :
    p.added = true ∧ p.marked = true := by
  cases p with
  | held stage => cases stage <;> first | exact ⟨rfl, rfl⟩ | exact ⟨h, h⟩ | cases h
  | _ => exact ⟨h, h⟩

/-- What a callback reads in its task. -/
def AsyncTask.report (t : AsyncTask) : AsyncTaskStatus × ℕ := (t.status, t.szOperated)

namespace AsyncTask

@[simp] theorem report_incRef (t : AsyncTask) : t.incRef.report = t.report := rfl

@[simp] theorem report_destroyAndRelease (k : ℕ) (t : AsyncTask) :
    (destroyAndRelease k t).report = t.report := by
  induction k generalizing t with
  | zero => rfl
  | succ k ih =>
      have hrec : (destroyAndRelease k t.releaseOverlappedRefs).report = t.report :=
        ih t.releaseOverlappedRefs
      rw [destroyAndRelease]
      split
      · split
        · exact hrec
        · rfl
      · rfl

@[simp] theorem report_onRefZero (t : AsyncTask) : t.onRefZero.report = t.report :=
  report_destroyAndRelease 2 t

@[simp] theorem report_decRef (t : AsyncTask) : t.decRef.report = t.report := by
  rw [decRef]
  split
  · exact report_onRefZero t.dropCount
  · rfl

end AsyncTask

namespace Call

/-- **What stands in the task**: the status the constructor stored, or the one of the worker; no
size, or the one of the kernel's answer. An accept has no size. -/
structure Told (c : Call) (answer : Option ℕ) : Prop where
  status : c.task.status = if c.packet.marked then .done else .ready
  before : c.packet.added = false → c.task.szOperated = 0
  after : c.packet.added = true → ∃ sz, answer = some sz ∧
    c.task.szOperated = if c.kind = .accept then 0 else sz

section

variable {c c' : Call} {answer : Option ℕ}

/-- A step that stores nothing keeps what the task has been told. -/
theorem Told.of_eq (h : c.Told answer) (hreport : c'.task.report = c.task.report)
    (hkind : c'.kind = c.kind) (hmarked : c'.packet.marked = c.packet.marked)
    (hadded : c'.packet.added = c.packet.added) : c'.Told answer := by
  obtain ⟨hstatus, hsize⟩ := Prod.mk.inj hreport
  refine ⟨?_, fun hp => ?_, fun hp => ?_⟩
  · rw [hstatus, hmarked]
    exact h.status
  · rw [hsize]
    exact h.before (hadded ▸ hp)
  · rw [hsize, hkind]
    exact h.after (hadded ▸ hp)

/-- A step that leaves the packet where it is, and stores nothing, keeps what the task has
been told. -/
theorem Told.of_packet_eq (h : c.Told answer) (hreport : c'.task.report = c.task.report)
    (hkind : c'.kind = c.kind) (hpacket : c'.packet = c.packet) : c'.Told answer :=
  h.of_eq hreport hkind (by rw [hpacket]) (by rw [hpacket])

/-- A task in which nothing was stored yet has been told nothing. -/
theorem told_of_ready (hadded : c.packet.added = false) (hreport : c.task.report = (.ready, 0)) :
    c.Told answer := by
  obtain ⟨hstatus, hsize⟩ := Prod.mk.inj hreport
  have hmarked : c.packet.marked = false := by
    revert hadded
    cases c.packet with
    | held stage => cases stage <;> first | exact id | exact fun _ => rfl
    | _ => exact id
  refine ⟨?_, fun _ => hsize, fun hp => absurd (hadded.symm.trans hp) Bool.false_ne_true⟩
  rw [hstatus, hmarked]
  rfl

/-- A task whose packet has not been made is as the constructor left it. -/
theorem Told.report_eq (h : c.Told answer) (hp : c.packet = .notIssued) :
    c.task.report = (.ready, 0) := by
  refine Prod.ext ?_ (h.before (by rw [hp]; rfl))
  rw [AsyncTask.report, h.status, hp]
  rfl

/-- The drop of the local `task` leaves what a callback reads. -/
theorem report_dropOwner (c : Call) : c.dropOwner.task.report = c.task.report := by
  unfold dropOwner touch
  split
  · split
    · exact AsyncTask.report_decRef c.task
    · exact AsyncTask.report_onRefZero c.task
  · rfl

/-- A failing exit stores nothing. -/
theorem Told.fail (h : c.Told answer) (e : ExceptionPointer) (p : FailPoint) :
    (c.fail e p).Told answer := by
  rw [fail_eq]
  exact h.of_packet_eq (report_dropOwner c) rfl rfl

/-- **The submit call** stores nothing in a task it has made. -/
theorem Told.submit {choice : SubmitChoice} (hs : c.Sound) (h : c.Told answer)
    (hstep : Submits c choice (.next c')) : c'.Told answer := by
  cases hstep with
  | call kind tooBig hpc =>
      have hnot : c.packet = .notIssued := hs.notIssued (hpc ▸ rfl)
      have hready : ({ c with kind := kind } : Call).Told answer :=
        told_of_ready (hnot ▸ rfl) (h.report_eq hnot)
      rw [enter]
      split
      · exact hready.fail _ _
      · exact hready.of_packet_eq rfl rfl rfl
  | allocTask ok hpc =>
      have hnot : c.packet = .notIssued := hs.notIssued (hpc ▸ rfl)
      rw [allocTask]
      split
      · refine told_of_ready (hnot ▸ rfl) ?_
        dsimp only
        split <;> rfl
      · exact h.fail _ _
  | createSocket ok hpc hkind =>
      rw [createSocket]
      split
      · exact h.of_packet_eq rfl rfl rfl
      · exact h.fail _ _
  | allocOverlapped ok hpc hkind =>
      rw [allocOverlapped]
      split
      · exact h.of_packet_eq rfl rfl rfl
      · exact h.fail _ _
  | issue result hpc =>
      have hnot : c.packet = .notIssued := hs.notIssued (hpc ▸ rfl)
      rw [Call.issue]
      split
      · exact told_of_ready rfl (h.report_eq hnot)
      · exact h.of_packet_eq rfl rfl rfl
  | accept ok result hpc hacc => exact h.of_packet_eq rfl rfl rfl
  | refuse ok code e hpc hacc he => exact h.fail _ _
  | insertFails hpc | giveUp hpc => exact h.of_packet_eq rfl rfl rfl
  | unwind hpc =>
      rw [unwind_eq]
      exact h.of_packet_eq (report_dropOwner c) rfl rfl
  | share hpc | assignOut hpc => exact h.of_packet_eq rfl rfl rfl
  | leave hpc =>
      rw [leave_eq]
      refine h.of_packet_eq ?_ rfl rfl
      dsimp only
      split
      · exact AsyncTask.report_decRef c.task
      · rfl
  | release hpc href => exact h.of_packet_eq (AsyncTask.report_decRef c.task) rfl rfl

/-- **The step lemma of `Told`**: the worker that adds the size has the answer. -/
theorem Told.step {ev : Event} (hs : c.Sound) (h : c.Told answer) (hstep : Steps c ev c')
    (hanswer : ∀ sz, ev = .handle .unlocked sz .go → answer = some sz) : c'.Told answer := by
  cases hstep with
  | submit hsub => exact h.submit hs hsub
  | register hsub =>
      cases hsub with
      | insert hpc => exact h.of_packet_eq rfl rfl rfl
  | complete hp | completeFailed hp | dequeue hp | takeFailed hp | holdRaw sz hp
  | miss sz hp hreg | invoke sz hp =>
      refine h.of_eq rfl rfl ?_ ?_ <;> rw [hp] <;> rfl
  | hit sz hp hreg | dropOverlappedRef sz hp | dropTask sz exits hp =>
      refine h.of_eq (AsyncTask.report_decRef c.task) rfl ?_ ?_ <;> rw [hp] <;> rfl
  | addTransferred sz hp =>
      have hzero : c.task.szOperated = 0 := h.before (by rw [hp]; rfl)
      refine ⟨?_, fun hp' => absurd hp'.symm Bool.false_ne_true,
        fun _ => ⟨sz, hanswer sz rfl, ?_⟩⟩
      · have hstatus := h.status
        rw [hp] at hstatus
        exact hstatus
      · simp [Call.addTransferred, hzero]
  | setDone sz hp =>
      exact ⟨rfl, fun hp' => absurd hp'.symm Bool.false_ne_true,
        fun _ => h.after (by rw [hp]; rfl)⟩
  | @stays stage stage' sz choice hp hin hin' =>
      have hphase : ∀ {st : Stage}, st.called = true → (PacketPhase.held st).marked = true ∧
          (PacketPhase.held st).added = true := by
        intro st hst
        cases st <;> first | exact ⟨rfl, rfl⟩ | exact absurd hst Bool.false_ne_true
      refine h.of_eq rfl rfl ?_ ?_
      · rw [hp, (hphase hin).1]
        exact (hphase hin').1
      · rw [hp, (hphase hin).2]
        exact (hphase hin').2
  | dropRaw sz exits hit hp =>
      refine h.of_eq (AsyncTask.report_decRef c.task) rfl ?_ ?_ <;> rw [hp] <;> cases hit <;> rfl

end

end Call

/-! ### Every run -/

namespace State

/-- A step about the packet in hand is one of the worker that has it. -/
theorem handling_of_eventOf {n : ℕ} {s : State n} {l : Label n} {o : OpId} {stage : Stage}
    {sz : ℕ} {choice : WorkerChoice} (h : s.eventOf l = some (o, .handle stage sz choice)) :
    ∃ w, (s.workers w).pc = .handling o sz stage := by
  cases l with
  | worker w choice' =>
      simp only [eventOf] at h
      split at h
      · split at h <;> cases h
      · rename_i hw
        cases h
        exact ⟨w, hw⟩
      · cases h
  | submit o' choice' | complete o' sz' | completeFailed o' code | run choice' => cases h

/-- **The sizes are on their way**: what the service carries and what stands in the tasks is what
the kernel answered. -/
structure Conveys {n : ℕ} (s : State n) (transferred : Transferred) : Prop where
  coherent : s.Coherent
  carried : ∀ o sz, s.Carries o sz → transferred o = some sz
  told : ∀ o, (s.calls o).Told (transferred o)

/-- **The step lemma of `Conveys`**: every step keeps it, with the history. -/
theorem Conveys.step {n : ℕ} {s t : State n} {transferred : Transferred} {l : Label n}
    (h : s.Conveys transferred) (hstep : s.step l = some t) :
    t.Conveys (noteTransferred transferred s l t) := by
  have hmoves : s.Moves (s.eventOf l) t := moves_of_step h.coherent hstep
  -- An operation that was answered before is not answered again.
  have hnote : ∀ o sz, s.Carries o sz ∨ (s.calls o).packet.added = true →
      noteTransferred transferred s l t o = transferred o := by
    intro o sz hbusy
    cases l with
    | complete o' sz' =>
        refine Function.update_of_ne (fun heq => ?_) _ _
        subst heq
        obtain ⟨-, hgo⟩ := Option.ite_none_left_eq_some.mp hstep
        obtain ⟨hkernel, -⟩ := Option.ite_none_right_eq_some.mp hgo
        have hpending := (h.coherent o).sound.pending.mp hkernel
        rcases hbusy with hcarries | hadded
        · exact h.coherent.not_carries hpending hcarries
        · rw [hpending] at hadded
          cases hadded
    | submit o' choice | completeFailed o' code | worker w choice | run choice => rfl
  refine ⟨hmoves.coherent h.coherent, fun o sz hcarries => ?_, fun o => ?_⟩
  · rcases hcarries.of_step hstep with hold | rfl
    · rw [hnote o sz (.inl hold)]
      exact h.carried o sz hold
    · exact Function.update_self _ _ _
  · have hkept : (s.calls o).Told (noteTransferred transferred s l t o) := by
      refine ⟨(h.told o).status, (h.told o).before, fun hadded => ?_⟩
      rw [hnote o 0 (.inr hadded)]
      exact (h.told o).after hadded
    rcases hmoves.calls o with hsame | ⟨ev, hev, hafter⟩
    · rw [hsame]
      exact hkept
    · refine hkept.step (h.coherent o).sound (Call.steps_of_after hafter) ?_
      rintro sz rfl
      obtain ⟨w, hw⟩ := handling_of_eventOf hev
      have hcarries : s.Carries o sz := .inr ⟨w, .unlocked, hw⟩
      rw [hnote o sz (.inl hcarries)]
      exact h.carried o sz hcarries

end State

/-- What a callback reads is what the kernel answered, in every run of the service. -/
theorem conveys_of_run {n : ℕ} {s : State n} {transferred : Transferred}
    (h : (transferring n).Reachable (s, transferred)) : s.Conveys transferred := by
  refine h.invariant (I := fun p => p.1.Conveys p.2) ?_ ?_
  · refine ⟨State.coherent_init n, fun o sz hcarries => ?_, fun o => Call.told_of_ready rfl rfl⟩
    rcases hcarries with hmem | ⟨w, stage, hw⟩
    · cases hmem
    · cases hw
  · rintro ⟨s, transferred⟩ l ⟨t, transferred'⟩ hconveys hstep
    obtain ⟨hgo, hnote⟩ := Machine.step_withHistory hstep
    dsimp only at hconveys hgo hnote ⊢
    rw [hnote]
    exact hconveys.step hgo

/-- **What a task says**, in every state of every run. It is `Done` from the store of the worker
on, and `Ready` before; no task is ever `Running` or `Interrupted`. Until the worker that found it
adds the size it has none; from then on the kernel is through with the operation, and the size is
the one the kernel transferred: no size of another operation, and nothing added twice. The
callback is invoked after both. -/
theorem completion_told {n : ℕ} {s : State n} {transferred : Transferred}
    (h : (transferring n).Reachable (s, transferred)) (o : OpId) :
    ((s.calls o).task.status = if (s.calls o).packet.marked then .done else .ready) ∧
    ((s.calls o).packet.added = false → (s.calls o).task.szOperated = 0) ∧
    ((s.calls o).packet.added = true → (s.calls o).kernelPending = false ∧
      ∃ sz, transferred o = some sz ∧
        (s.calls o).task.szOperated = if (s.calls o).kind = .accept then 0 else sz) ∧
    ((s.calls o).callbacks ≠ 0 →
      (s.calls o).packet.added = true ∧ (s.calls o).packet.marked = true) ∧
    ∀ w sz stage, (s.workers w).pc = .handling o sz stage → transferred o = some sz := by
  have hconveys := conveys_of_run h
  have hservice : (service n).Reachable s := h.forget fun _ _ _ => trivial
  have hcounted := (lifecycle_counted (reachable_life hservice o)).2
  have htold := hconveys.told o
  refine ⟨htold.status, htold.before, fun hadded => ⟨?_, htold.after hadded⟩, fun hne => ?_,
    fun w sz stage hw => hconveys.carried o sz (.inr ⟨w, stage, hw⟩)⟩
  · rw [Bool.eq_false_iff, ne_eq, (hconveys.coherent o).sound.pending]
    intro hpending
    rw [hpending] at hadded
    cases hadded
  · rw [hcounted.callbacks, ne_eq, Bool.toNat_eq_zero, Bool.not_eq_false] at hne
    exact PacketPhase.marked_of_invoked hne

/-- A read of which the kernel transferred five bytes: the size is there before the status. -/
theorem completion_told_read :
    ∃ p : State 1 × Transferred, (p.1.calls 0).task.status = .ready ∧
      (p.1.calls 0).task.szOperated = 5 := by
  obtain ⟨p, hrun, hkind, hpacket, htransferred⟩ := Machine.exists_runWhere
    (M := transferring 1) (G := fun _ _ => True) (s := (transferring 1).init)
    (P := fun p => (p.1.calls 0).kind = .read ∧ (p.1.calls 0).packet = .held .counted ∧
      p.2 0 = some 5)
    (startUp ++ submitUpToIssue .read ++ submitUpToInsert ++ submitUpToReturn ++
      reachesCallback.take 5) (by decide)
  obtain ⟨hstatus, -, hafter, -⟩ := @completion_told 1 p.1 p.2 hrun 0
  obtain ⟨-, sz, hanswer, hsize⟩ := hafter (by rw [hpacket]; rfl)
  obtain rfl := Option.some.inj (htransferred.symm.trans hanswer)
  refine ⟨p, ?_, ?_⟩
  · rw [hstatus, hpacket]
    rfl
  · rw [hsize, hkind]
    rfl

end Netknot.Win32
