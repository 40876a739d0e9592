import Netknot.Win32.Drain
import Netknot.Win32.Handback
import Netknot.Win32.Progress

/-!
# Destroying the Service

`~Win32IOService` destroys the members, the last one first. `~ThreadLocalData` waits for its
thread, whether it was ever started or not, and then destroys the exception the thread has stored,
if it is still there; then the task set drops its references. Nothing takes back what the kernel
has not answered, and no thread is left that would take the packets.

## Main results

* `registered_alive`: a task that is in `currentTasks` is alive, in every state of every run.
* `destruction_returns`: when the destructor returns, how many steps it takes, and what it leaves
  of the operations that were under way.
-/

namespace Netknot.Win32

/-- How far the destructor is. -/
inductive TeardownPc
  /-- In `WaitForSingleObject` of thread `i`. -/
  | joining (i : ℕ)
  /-- `currentTasks` drops its references. -/
  | releasing
  | done
  /-- The process ended in `~ExceptionPointer`. -/
  | ended
  deriving DecidableEq, Repr

/-- The service while it is destroyed. -/
structure Teardown (n : ℕ) where
  service : State n
  pc : TeardownPc

/-- What happens while the service is destroyed. -/
inductive TeardownLabel (n : ℕ)
  /-- The destructor goes on. -/
  | next
  /-- A thread, the kernel or the owner of a task does something. -/
  | other (l : Label n)
  deriving DecidableEq, Repr

/-- What does not need the service: it is neither run nor given operations any more. -/
def Label.outlives {n : ℕ} : Label n → Bool
  | .submit _ choice => choice = .release
  | .run _ => false
  | _ => true

/-- The `RcObjectPtr` in `currentTasks` is destroyed. -/
def Call.unregister (c : Call) : Call := { c with task := c.task.decRef, registered := false }

namespace Teardown

/-- The destructor of the service; `assertions` when they are compiled in. -/
def next {n : ℕ} (assertions : Bool) (d : Teardown n) : Option (Teardown n) :=
  match d.pc with
  | .joining i =>
      if h : i < n then
        if (d.service.workers ⟨i, h⟩).pc = .exited then
          -- the thread has ended; its `exceptionStorage` is destroyed
          let e := (d.service.workers ⟨i, h⟩).exceptionStorage
          some { d with
            pc := if ExceptionPointer.destructorReturns assertions e then .joining (i + 1)
              else .ended }
        else none
      else some { d with pc := .releasing }
  | .releasing =>
      match d.service.currentTasks with
      | o :: rest =>
          some { d with
            service := ({ d.service with currentTasks := rest } : State n).setCall o
              (d.service.calls o).unregister }
      | [] => some { d with pc := .done }
  | .done | .ended => none

/-- One step; nothing moves after the process has ended. -/
def step {n : ℕ} (assertions : Bool) (d : Teardown n) : TeardownLabel n → Option (Teardown n)
  | .next => d.next assertions
  | .other l =>
      if d.pc ≠ .ended ∧ l.outlives then (d.service.step l).map fun s => { d with service := s }
      else none

end Teardown

/-- The destruction of the service as a machine. -/
def teardown {n : ℕ} (assertions : Bool) (s : State n) :
    Machine (Teardown n) (TeardownLabel n) where
  init := ⟨s, .joining 0⟩
  step := Teardown.step assertions

/-! ### The tasks in the set -/

namespace Call

/-- The task is in the set, or its submit call owns it and has not come to the insert. -/
def kept (c : Call) : Bool := c.registered || c.pc.ownsTask && !c.pc.afterInsert

section

variable {c c' : Call}

/-- What was not found, the worker did not drop the block of. -/
theorem blockDropped_of_not_found {p : PacketPhase} (h : p.found = false) :
    p.blockDropped = false := by
  cases p with
  | held stage =>
      cases stage with
      | dropRaw exits hit => cases hit <;> first | rfl | exact absurd h.symm Bool.false_ne_true
      | dequeued | locked => rfl
      | _ => exact absurd h.symm Bool.false_ne_true
  | delivered => exact absurd h.symm Bool.false_ne_true
  | _ => rfl

/-- A task in the set was not found, and has its block. -/
theorem overlappedRef_of_registered (ha : c.Accounted) (hx : c.Counted)
    (hreg : c.registered = true) : c.overlappedRef = true := by
  have hafter : c.pc.afterInsert = true := ha.sound.inserted hreg
  have hfail : c.failPoint = none := by
    cases hf : c.failPoint with
    | none => rfl
    | some p => exact absurd ((ha.exits.failed p hf).1.symm.trans hreg) Bool.false_ne_true
  have hfound : c.packet.found = false := by
    have hin := hx.inserted hafter hfail
    rw [hreg] at hin
    simpa using hin.symm
  have hover : c.task.hasOverlapped = true := by
    cases hpc : c.pc with
    | posted | shared | leaving => exact ha.built.block (by rw [hpc]; rfl) (by rw [hpc]; rfl)
    | returned e =>
        cases e with
        | none => exact ha.built.handed hpc
        | some e => rw [hpc] at hafter; exact absurd hafter Bool.false_ne_true
    | _ => rw [hpc] at hafter; exact absurd hafter Bool.false_ne_true
  rw [overlappedRef, hover, blockDropped_of_not_found hfound]
  rfl

/-- The set and the block hold a task that is in the set. -/
theorem two_le_refs_of_registered (ha : c.Accounted) (hx : c.Counted)
    (hreg : c.registered = true) : 2 ≤ c.refs := by
  have hover := overlappedRef_of_registered ha hx hreg
  simp only [refs, hover, hreg, Bool.toNat_true]
  omega

/-- A failing exit gives the task up. -/
theorem not_kept_fail (hs : c.Sound) (hpc : c.pc.afterInsert = false) (e : ExceptionPointer)
    (p : FailPoint) : (c.fail e p).kept = false := by
  have hreg : c.registered = false :=
    Bool.eq_false_iff.mpr fun hreg => Bool.false_ne_true (hpc.symm.trans (hs.inserted hreg))
  simp [kept, fail_eq, hreg]

/-- The submit call keeps the task alive until it has given it up. -/
theorem kept_submit {choice : SubmitChoice} (ha : c.Accounted) (hx : c.Counted)
    (h : c.kept = true → c.task.destroyed = 0) (hstep : Submits c choice (.next c'))
    (hkept : c'.kept = true) : c'.task.destroyed = 0 := by
  have hfailed : ∀ {c₀ : Call} {e : ExceptionPointer} {p : FailPoint}, c₀.Sound →
      c₀.pc.afterInsert = false → (c₀.fail e p).kept = true →
      (c₀.fail e p).task.destroyed = 0 := fun hs hpc hkept =>
    absurd ((not_kept_fail hs hpc _ _).symm.trans hkept) Bool.false_ne_true
  have howned : c.pc.ownsTask = true → c.pc.afterInsert = false → c.task.destroyed = 0 :=
    fun howns hafter => h (by simp [kept, howns, hafter])
  cases hstep with
  | call kind tooBig hpc =>
      have hs : ({ c with kind := kind } : Call).Sound :=
        ⟨ha.sound.notIssued, ha.sound.pending, ha.sound.inserted, ha.sound.found⟩
      by_cases hbig : tooBig = true ∧ kind ≠ .accept
      · rw [enter, if_pos hbig] at hkept ⊢
        exact hfailed hs (by rw [hpc]; rfl) hkept
      · rw [enter, if_neg hbig, ha.built.fresh (.inl hpc)]
  | allocTask ok hpc =>
      cases ok with
      | true =>
          rw [allocTask, if_pos rfl]
          dsimp only
          split <;> rfl
      | false => exact hfailed ha.sound (by rw [hpc]; rfl) hkept
  | createSocket ok hpc hkind =>
      cases ok with
      | true => exact howned (by rw [hpc]; rfl) (by rw [hpc]; rfl)
      | false => exact hfailed ha.sound (by rw [hpc]; rfl) hkept
  | allocOverlapped ok hpc hkind =>
      have howns : c.pc.ownsTask = true := by rcases hpc with hpc | hpc <;> rw [hpc] <;> rfl
      have hafter : c.pc.afterInsert = false := by rcases hpc with hpc | hpc <;> rw [hpc] <;> rfl
      cases ok with
      | true => exact howned howns hafter
      | false => exact hfailed ha.sound hafter hkept
  | issue result hpc =>
      rw [Call.issue]
      split <;> exact howned (by rw [hpc]; rfl) (by rw [hpc]; rfl)
  | accept ok result hpc hacc => exact howned (by rw [hpc]; rfl) (by rw [hpc]; rfl)
  | refuse ok code e hpc hacc he => exact hfailed ha.sound (by rw [hpc]; rfl) hkept
  | insertFails hpc => exact howned (by rw [hpc]; rfl) (by rw [hpc]; rfl)
  | unwind hpc | giveUp hpc =>
      have hreg : c.registered = false := Bool.eq_false_iff.mpr fun hreg =>
        Bool.false_ne_true (by simpa [hpc, SubmitPc.afterInsert] using ha.sound.inserted hreg)
      simp [kept, unwind_eq, giveUp, SubmitPc.ownsTask, hreg] at hkept
  | share hpc | assignOut hpc =>
      refine h ?_
      rw [kept, hpc]
      exact hkept
  | leave hpc =>
      rw [leave_eq] at hkept ⊢
      have hreg : c.registered = true := by simpa [kept] using hkept
      have halive : c.task.destroyed = 0 := h (by simp [kept, hreg])
      dsimp only
      split
      · rw [destroyed_decRef (ha.ledger halive) (two_le_refs_of_registered ha hx hreg)]
        exact halive
      · exact halive
  | release hpc href =>
      have hreg : c.registered = true := by simpa [kept, hpc] using hkept
      have halive : c.task.destroyed = 0 := h (by simp [kept, hreg])
      exact (destroyed_decRef (ha.ledger halive)
        (two_le_refs_of_registered ha hx hreg)).trans halive

/-- A kept task that has its block is held by somebody. -/
theorem one_le_refs_of_kept (ha : c.Accounted) (hover : c.task.hasOverlapped = true)
    (hkept : c.kept = true) : 1 ≤ c.refs := by
  rcases Bool.or_eq_true_iff.mp hkept with hreg | hown
  · simp only [refs, hreg, Bool.toNat_true]
    omega
  · obtain ⟨howns, hafter⟩ := Bool.and_eq_true_iff.mp hown
    have hblock : c.pc.beforeBlock = false :=
      Bool.eq_false_iff.mpr fun hb =>
        Bool.false_ne_true ((ha.built.noBlock hb).symm.trans hover)
    have href := overlappedRef_of_not_inserted ha.sound ha.built howns hblock
      (Bool.not_eq_true' _ ▸ hafter)
    simp only [refs, href, Bool.toNat_true]
    omega

/-- **The step lemma**: what is kept stays alive. -/
theorem kept_step {ev : Event} (ha : c.Accounted) (ha' : c'.Accounted) (hx : c.Counted)
    (h : c.kept = true → c.task.destroyed = 0) (hstep : Steps c ev c')
    (hkept : c'.kept = true) : c'.task.destroyed = 0 := by
  by_cases hev : ∀ choice, ev ≠ .submit choice
  · have hframe : PacketFrame c c' := packetFrame_of_steps hstep hev
    have hreg : c'.registered = true → c.registered = true := by
      cases hstep with
      | submit hsub | register hsub => exact absurd rfl (hev _)
      | hit sz hp hreg => exact fun _ => hreg
      | _ => exact id
    have hkept' : c.kept = true := by
      rw [kept, Bool.or_eq_true_iff, hframe.pc] at hkept
      rw [kept, Bool.or_eq_true_iff]
      exact hkept.imp_left hreg
    have halive : c.task.destroyed = 0 := h hkept'
    cases refEffect_of_steps ha.built hstep hev with
    | keeps status htask hrefs =>
        rw [htask]
        exact halive
    | takes sz htask hrefs =>
        rw [htask]
        exact halive
    | drops htask hrefs =>
        have hissued : c.packet ≠ .notIssued := by
          cases hstep with
          | submit hsub | register hsub => exact absurd rfl (hev _)
          | _ => simp [*]
        have hover : c'.task.hasOverlapped = true := by
          rw [htask, (AsyncTask.sameObject_decRef c.task).hasOverlapped]
          exact ha.built.issued hissued
        have hone := one_le_refs_of_kept ha' hover hkept
        rw [htask, destroyed_decRef (ha.ledger halive) (by omega), halive]
  · cases hstep with
    | submit hsub => exact kept_submit ha hx h hsub hkept
    | register hsub =>
        cases hsub with
        | insert hpc => exact h (by simp [kept, hpc, SubmitPc.ownsTask, SubmitPc.afterInsert])
    | _ => exact absurd (fun _ he => by cases he) hev

end

end Call

/-- In every run of an operation what is kept is alive. -/
theorem lifecycle_kept {H : Call → Event → Prop} {c : Call}
    (h : lifecycle.RunWhere H lifecycle.init c) :
    (c.Accounted ∧ c.Counted) ∧ (c.kept = true → c.task.destroyed = 0) := by
  refine h.invariant (I := fun c => (c.Accounted ∧ c.Counted) ∧
      (c.kept = true → c.task.destroyed = 0))
    ⟨⟨lifecycle_accounted (H := fun _ _ => True) .refl,
      (lifecycle_counted (H := fun _ _ => True) .refl).2⟩, fun _ => rfl⟩ ?_
  rintro c ev c' ⟨⟨ha, hx⟩, hkept⟩ - hstep
  have hsteps := Call.steps_of_after hstep
  have ha' : c'.Accounted := ha.step hsteps
  exact ⟨⟨ha', hx.step ha.sound hsteps⟩, Call.kept_step ha ha' hx hkept hsteps⟩

/-- **A task in the set is alive**, in every state of every run: the set holds it, and so does its
block, which no worker has dropped. -/
theorem registered_alive {n : ℕ} {s : State n} (h : (service n).Reachable s) {o : OpId}
    (ho : o ∈ s.currentTasks) :
    (s.calls o).task.destroyed = 0 ∧ (s.calls o).Ledger ∧ (s.calls o).overlappedRef = true ∧
      2 ≤ (s.calls o).refs := by
  obtain ⟨⟨ha, hx⟩, hkept⟩ := lifecycle_kept (reachable_life h o)
  have hreg : (s.calls o).registered = true := by
    have hcount := (service_coherent h o).tasks
    have hpos := List.count_pos_iff.mpr ho
    by_contra hne
    rw [Bool.not_eq_true] at hne
    rw [hcount, hne] at hpos
    exact Nat.lt_irrefl 0 hpos
  have halive : (s.calls o).task.destroyed = 0 := hkept (by simp [Call.kept, hreg])
  exact ⟨halive, ha.ledger halive, Call.overlappedRef_of_registered ha hx hreg,
    Call.two_le_refs_of_registered ha hx hreg⟩

/-! ### Steps of the destruction -/

/-- **What becomes of an operation** while the service is destroyed. -/
inductive Call.Outlives (c : Call) : Call → Prop
  | complete : Outlives c c.complete
  | completeFailed : Outlives c c.completeFailed
  | release (href : c.callerRef = true) :
      Outlives c { c with task := c.task.decRef, callerRef := false, released := true }

/-- No thread is under way: each of them has ended, or was never started. -/
def State.Still {n : ℕ} (s : State n) : Prop :=
  ∀ w, (s.workers w).pc = .exited ∨ (s.workers w).pc = .suspended

/-- Whether the threads are still depends on the threads only. -/
theorem State.Still.of_eq {n : ℕ} {s t : State n} (h : s.Still)
    (hworkers : t.workers = s.workers) : t.Still := by
  rw [State.Still, hworkers]
  exact h

namespace Teardown

/-- **What the destructor does** at each of its program points. -/
inductive Goes {n : ℕ} (assertions : Bool) (d : Teardown n) : Teardown n → Prop
  | join (i : Fin n) (pc : d.pc = .joining i) (worker : (d.service.workers i).pc = .exited)
      (storage : ExceptionPointer.destructorReturns assertions
        (d.service.workers i).exceptionStorage = true) :
      Goes assertions d { d with pc := .joining (i + 1) }
  | endProcess (i : Fin n) (pc : d.pc = .joining i)
      (worker : (d.service.workers i).pc = .exited)
      (storage : ExceptionPointer.destructorReturns assertions
        (d.service.workers i).exceptionStorage = false) :
      Goes assertions d { d with pc := .ended }
  | joined {i : ℕ} (pc : d.pc = .joining i) (all : n ≤ i) :
      Goes assertions d { d with pc := .releasing }
  | drop {o : OpId} {rest : List OpId} (pc : d.pc = .releasing)
      (tasks : d.service.currentTasks = o :: rest) :
      Goes assertions d { d with
        service := ({ d.service with currentTasks := rest } : State n).setCall o
          (d.service.calls o).unregister }
  | finish (pc : d.pc = .releasing) (tasks : d.service.currentTasks = []) :
      Goes assertions d { d with pc := .done }

/-- **What else happens**: the kernel answers, and owners of tasks drop them. -/
structure Happens {n : ℕ} (d e : Teardown n) : Prop where
  pc : e.pc = d.pc
  running : d.pc ≠ .ended
  workers : e.service.workers = d.service.workers
  tasks : e.service.currentTasks = d.service.currentTasks
  calls : ∃ o c, (d.service.calls o).Outlives c ∧
    e.service.calls = Function.update d.service.calls o c

section

variable {n : ℕ} {assertions : Bool} {d e : Teardown n}

/-- The inversion of a step of the destructor: it goes on from where it is. -/
theorem goes_of_next (h : d.next assertions = some e) : d.Goes assertions e := by
  rw [next] at h
  split at h
  · rename_i i hpc
    split at h
    · rename_i hi
      obtain ⟨hw, rfl⟩ := Option.ite_none_right_eq_some.mp h |>.imp_right Option.some.inj
      cases hstorage : ExceptionPointer.destructorReturns assertions
          (d.service.workers ⟨i, hi⟩).exceptionStorage with
      | true => exact .join ⟨i, hi⟩ hpc hw hstorage
      | false => exact .endProcess ⟨i, hi⟩ hpc hw hstorage
    · rename_i hi
      obtain rfl := Option.some.inj h
      exact .joined hpc (Nat.le_of_not_lt hi)
  · rename_i hpc
    split at h
    · rename_i o rest htasks
      obtain rfl := Option.some.inj h
      exact .drop hpc htasks
    · rename_i htasks
      obtain rfl := Option.some.inj h
      exact .finish hpc htasks
  · cases h
  · cases h

/-- The inversion of another step: it happens to the tasks while the destructor is where it is. -/
theorem happens_of_step {l : Label n} (hstill : d.service.Still)
    (h : d.step assertions (.other l) = some e) : d.Happens e := by
  obtain ⟨⟨hrunning, hl⟩, hgo⟩ := Option.ite_none_right_eq_some.mp h
  obtain ⟨s, hs, rfl⟩ := Option.map_eq_some_iff.mp hgo
  obtain ⟨-, hstep⟩ := Option.ite_none_left_eq_some.mp hs
  cases l with
  | submit o choice =>
      obtain rfl : choice = .release := of_decide_eq_true hl
      obtain ⟨a, ha, rfl⟩ := Option.map_eq_some_iff.mp hstep
      cases Call.submits_of_submit ha with
      | release hpc href => exact ⟨rfl, hrunning, rfl, rfl, o, _, .release href, rfl⟩
  | complete o sz =>
      obtain ⟨-, rfl⟩ := Option.ite_none_right_eq_some.mp hstep |>.imp_right Option.some.inj
      exact ⟨rfl, hrunning, rfl, rfl, o, _, .complete, rfl⟩
  | completeFailed o code =>
      obtain ⟨-, rfl⟩ := Option.ite_none_right_eq_some.mp hstep |>.imp_right Option.some.inj
      exact ⟨rfl, hrunning, rfl, rfl, o, _, .completeFailed, rfl⟩
  | worker w choice =>
      rcases hstill w with hw | hw <;> simp only [State.workerStep, hw] at hstep <;> cases hstep
  | run choice => exact absurd hl Bool.false_ne_true

/-- The threads stay as they are while the service is destroyed. -/
theorem workers_of_step {l : TeardownLabel n} (hstill : d.service.Still)
    (hstep : d.step assertions l = some e) : e.service.workers = d.service.workers := by
  cases l with
  | next => cases goes_of_next hstep <;> rfl
  | other l => exact (happens_of_step hstill hstep).workers

/-- When every thread has ended the destructor goes on. -/
theorem exists_next (hexited : ∀ w, (d.service.workers w).pc = .exited) (hdone : d.pc ≠ .done)
    (hrunning : d.pc ≠ .ended) : ∃ e, d.next assertions = some e := by
  rw [next]
  cases hpc : d.pc with
  | joining i =>
      by_cases hi : i < n
      · simp only [dif_pos hi, hexited, if_pos]
        exact ⟨_, rfl⟩
      · exact ⟨_, dif_neg hi⟩
  | releasing => cases d.service.currentTasks <;> exact ⟨_, rfl⟩
  | done => exact absurd hpc hdone
  | ended => exact absurd hpc hrunning

/-- How many steps the destructor has before it. -/
def rest (d : Teardown n) : ℕ :=
  match d.pc with
  | .joining i => n - i + d.service.currentTasks.length + 2
  | .releasing => d.service.currentTasks.length + 1
  | .done | .ended => 0

/-- The destructor has fewer steps before it after each of its steps. -/
theorem rest_lt_of_next (h : d.next assertions = some e) : e.rest < d.rest := by
  cases goes_of_next h with
  | join i hpc hw hstorage =>
      have hi := i.isLt
      simp only [rest, hpc]
      omega
  | endProcess i hpc hw hstorage =>
      simp only [rest, hpc]
      omega
  | joined hpc hall =>
      simp only [rest, hpc]
      omega
  | drop hpc htasks => simp [rest, hpc, htasks, State.setCall]
  | finish hpc htasks => simp [rest, hpc]

end

end Teardown

/-- **The steps before the destructor** rank the states of the destruction. -/
def teardownRank {n : ℕ} (assertions : Bool) {s : State n} (hstill : s.Still) :
    Machine.Ranking (teardown assertions s) (fun _ _ => True) (fun l => l = .next) where
  holds := fun d => d.service.workers = s.workers
  rank := Teardown.rest
  holds_step := fun {d l e} hd _ hstep =>
    (Teardown.workers_of_step (State.Still.of_eq hstill hd) hstep).trans hd
  rank_lt := fun {d l e} _ _ hstep hl => by
    subst hl
    exact Teardown.rest_lt_of_next hstep
  rank_le := fun {d l e} hd _ hstep hl => by
    cases l with
    | next => exact absurd rfl hl
    | other l =>
        have hgo : d.step assertions (.other l) = some e := hstep
        have hhappens : d.Happens e :=
          Teardown.happens_of_step (State.Still.of_eq hstill hd) hgo
        simp only [Teardown.rest, hhappens.pc, hhappens.tasks, le_refl]

/-! ### Whether `run()` has returned before -/

namespace State

/-- **History**: some `run()` has returned. -/
def noteReturned {n : ℕ} (returned : Bool) (s : State n) (_ : Label n) (t : State n) : Bool :=
  returned || (s.runPc ≠ .outside && t.runPc = .outside)

/-- **Between two runs** the threads have ended if there was one, and were never started if there
was none. -/
def Rests {n : ℕ} (s : State n) (returned : Bool) : Prop :=
  s.runPc.started = false →
    if returned then ∀ w, (s.workers w).pc = .exited else ∀ w, s.workers w = {}

section

variable {n : ℕ} {s t : State n} {l : Label n}

/-- The inversion of a return, whatever the step is called. -/
theorem returnsFrom_of_outside (hstep : s.step l = some t) (hin : s.runPc ≠ .outside)
    (hout : t.runPc = .outside) : s.ReturnsFrom t := by
  obtain ⟨-, hgo⟩ := Option.ite_none_left_eq_some.mp hstep
  cases l with
  | submit o choice =>
      obtain ⟨a, -, rfl⟩ := Option.map_eq_some_iff.mp hgo
      cases a <;> exact absurd hout hin
  | complete o sz | completeFailed o code =>
      obtain ⟨-, rfl⟩ := Option.ite_none_right_eq_some.mp hgo |>.imp_right Option.some.inj
      exact absurd hout hin
  | worker w choice =>
      obtain ⟨v, hstores⟩ := stores_worker hgo
      rcases hstores.runPc with hsame | hwoken
      · exact absurd (hsame.symm.trans hout) hin
      · rw [hwoken, RunPc.woken] at hout
        split at hout
        · cases hout
        · exact absurd hout hin
  | run choice =>
      cases choice with
      | go => exact returnsFrom_of_step hstep hout
      | call =>
          cases runs_of_runStep hgo with
          | guard hpc hrunning | enter hpc hidle => exact absurd hpc hin
      | spurious =>
          cases runs_of_runStep hgo with
          | spurious hpc => cases hout

/-- A run that has started ends outside. -/
theorem Turns.outside_of_started (hturn : s.Turns l t) (hs : s.runPc.started = true)
    (ht : t.runPc.started = false) : t.runPc = .outside := by
  have hne : t.runPc ≠ s.runPc := fun heq => by
    rw [heq, hs] at ht
    cases ht
  have hwoken : t.runPc ≠ s.runPc.woken := fun heq => by
    rw [RunPc.woken] at heq
    split at heq
    · rw [heq] at ht
      cases ht
    · exact hne heq
  cases hturn with
  | quiet hworkers hrun hflags | proceed w hw hworkers hrun hflags
  | stopStore w hw hworkers hrun hflags => exact absurd hrun hne
  | stopWake w hw hworkers hrun hflags | failWake w hw hworkers hrun hflags =>
      exact absurd hrun hwoken
  | enter hpc hworkers hrun hflags =>
      rw [hpc] at hs
      cases hs
  | throw i hworkers hrun hflags hpc => exact hrun
  | start hpc hworkers hrun hflags | resume i hpc hw hworkers hrun hflags =>
      rw [hrun] at ht
      cases ht
  | advance hpc hadv hworkers hflags =>
      subst hpc
      generalize s.runPc = p at hs hadv
      generalize t.runPc = q at ht hadv
      obtain ⟨i, rfl⟩ := hadv.collecting hs ht
      cases hadv with
      | collect j hnone => cases ht
      | collected hle => rfl

/-- Threads that were never started are not started between two runs. -/
theorem Turns.fresh (hturn : s.Turns l t) (ho : s.Ordered) (hs : s.runPc.started = false)
    (ht : t.runPc.started = false) (hfresh : ∀ w, s.workers w = {}) (w : Fin n) :
    t.workers w = {} := by
  have hactive : ∀ w, (s.workers w).pc.active ≠ true := fun w hw =>
    Bool.false_ne_true (hs.symm.trans (RunPc.started_of_serving (ho.active w hw)))
  cases hturn with
  | quiet hworkers hrun hflags | enter hpc hworkers hrun hflags
  | start hpc hworkers hrun hflags | advance hpc hadv hworkers hflags =>
      rw [hworkers]
      exact hfresh w
  | throw i hworkers hrun hflags hpc =>
      exact forall_workers_update (P := fun _ v => v = {}) hfresh hworkers (by rw [hfresh]) w
  | resume i hpc hw hworkers hrun hflags =>
      rw [hrun] at ht
      cases ht
  | proceed v hv hworkers hrun hflags => exact absurd hv.active (hactive v)
  | stopStore v hv hworkers hrun hflags | stopWake v hv hworkers hrun hflags
  | failWake v hv hworkers hrun hflags => exact absurd (by rw [hv]; rfl) (hactive v)

/-- The step lemma of `Rests`: every step keeps it, with the history. -/
theorem Rests.step {returned : Bool} (ho : s.Ordered) (hsettled : s.Settled)
    (h : s.Rests returned) (hstep : s.step l = some t) :
    t.Rests (noteReturned returned s l t) := by
  have hturn : s.Turns l t := turns_of_step hstep
  intro ht
  by_cases hret : s.runPc ≠ .outside ∧ t.runPc = .outside
  · have hnote : noteReturned returned s l t = true := by
      simp [noteReturned, hret.1, hret.2]
    rw [hnote, if_pos rfl]
    exact hsettled.exited (returnsFrom_of_outside hstep hret.1 hret.2)
  · have hnote : noteReturned returned s l t = returned := by
      rw [noteReturned, Bool.or_eq_left_iff_imp]
      intro hboth
      exact absurd (by simpa using hboth) hret
    have hs : s.runPc.started = false := by
      rw [Bool.eq_false_iff]
      intro hs
      refine hret ⟨fun hout => ?_, hturn.outside_of_started hs ht⟩
      rw [hout] at hs
      cases hs
    have hrests := h hs
    rw [hnote]
    split
    · rename_i hreturned
      rw [if_pos hreturned] at hrests
      exact fun w => hturn.exited (hrests w)
    · rename_i hreturned
      rw [if_neg hreturned] at hrests
      exact hturn.fresh ho hs ht hrests

end

end State

/-- The service with this history. -/
def returning (n : ℕ) : Machine (State n × Bool) (Label n) :=
  (service n).withHistory false State.noteReturned

/-- The threads of a service are started, or still suspended, as the history says, in
every run. -/
theorem rests_of_run {n : ℕ} {s : State n} {returned : Bool}
    (h : (returning n).Reachable (s, returned)) : s.Rests returned := by
  have hall : s.Ordered ∧ s.Settled ∧ s.Rests returned := by
    refine h.invariant (I := fun p => p.1.Ordered ∧ p.1.Settled ∧ p.1.Rests p.2)
      ⟨State.ordered_init n, ⟨fun _ => .inl fun _ => rfl, fun i hi => by cases hi⟩,
        fun _ _ => rfl⟩ ?_
    rintro ⟨s, returned⟩ l ⟨t, returned'⟩ ⟨ho, hsettled, hrests⟩ hstep
    obtain ⟨hgo, hnote⟩ := Machine.step_withHistory hstep
    dsimp only at ho hsettled hrests hgo hnote ⊢
    have hturn := State.turns_of_step hgo
    rw [hnote]
    exact ⟨ho.step hturn, hsettled.step ho hturn, hrests.step ho hsettled hgo⟩
  exact hall.2.2

/-! ### What is left of the operations -/

namespace Call

/-- **What is left of an operation** in the set: its task is alive, and held by its block, which
no worker will drop any more. -/
structure Left (c : Call) : Prop where
  ledger : c.Ledger
  pc : c.pc = .returned none
  alive : c.task.destroyed = 0
  block : c.overlappedRef = true
  raw : c.packet.rawRef = false
  local' : c.packet.taskRef = false
  callback : c.task.hasCallback = true

section

variable {c c' : Call}

/-- The parties that are left are the block, the set and the caller. -/
theorem Left.refs_eq (h : c.Left) : c.refs = 1 + c.registered.toNat + c.callerRef.toNat := by
  have hlocal : c.localRef = false := by simp [localRef, h.pc]
  simp only [refs, hlocal, h.block, h.raw, h.local', Bool.toNat_true, Bool.toNat_false]
  omega

/-- A drop by a party other than the block leaves the task to the others. -/
theorem Left.drop (h : c.Left) (htask : c'.task = c.task.decRef) (hpc : c'.pc = c.pc)
    (hpacket : c'.packet = c.packet) (hfault : c'.fault = c.fault)
    (hparty : c'.registered.toNat + c'.callerRef.toNat + 1 =
      c.registered.toNat + c.callerRef.toNat) : c'.Left := by
  have hrefs := h.refs_eq
  have halive : c'.task.destroyed = 0 := by
    rw [htask, destroyed_decRef h.ledger (by omega), h.alive]
  obtain ⟨-, -, hover, hcallback⟩ := htask ▸ AsyncTask.sameObject_decRef c.task
  have hblock : c'.overlappedRef = true := by
    have hold := h.block
    rw [overlappedRef] at hold ⊢
    rwa [hover, hpacket]
  have hraw : c'.packet.rawRef = false := hpacket ▸ h.raw
  have hlocal : c'.packet.taskRef = false := hpacket ▸ h.local'
  have hrefs' : c'.refs = 1 + c'.registered.toNat + c'.callerRef.toNat := by
    have hown : c'.localRef = false := by simp [localRef, hpc, h.pc]
    simp only [refs, hown, hblock, hraw, hlocal, Bool.toNat_true, Bool.toNat_false]
    omega
  have hledger : c'.Ledger :=
    h.ledger.dropped htask (by omega) (hfault.trans h.ledger.fault) halive
  exact ⟨hledger, hpc.trans h.pc, halive, hblock, hraw, hlocal, hcallback.trans h.callback⟩

/-- The task is left to the others when the set drops its reference. -/
theorem Left.unregister (h : c.Left) (hreg : c.registered = true) : c.unregister.Left := by
  refine h.drop rfl rfl rfl rfl ?_
  rw [hreg]
  simp only [Call.unregister, Bool.toNat_true, Bool.toNat_false]
  omega

/-- The task is left to the others when the kernel answers. -/
theorem Left.answered (h : c.Left) (htask : c'.task = c.task) (hpc : c'.pc = c.pc)
    (hreg : c'.registered = c.registered) (hcaller : c'.callerRef = c.callerRef)
    (hfault : c'.fault = c.fault) (hpacket : c'.packet.blockDropped = false ∧
      c'.packet.rawRef = false ∧ c'.packet.taskRef = false) : c'.Left := by
  have hover : c.task.hasOverlapped = true := (Bool.and_eq_true_iff.mp h.block).1
  have hblock : c'.overlappedRef = true := by
    rw [overlappedRef, htask, hover, hpacket.1]
    rfl
  have hrefs : c'.refs = c.refs := by
    have hlocal : c'.localRef = false := by simp [localRef, hpc, h.pc]
    rw [h.refs_eq]
    simp only [refs, hlocal, hblock, hpacket.2.1, hpacket.2.2, hreg, hcaller, Bool.toNat_true,
      Bool.toNat_false]
    omega
  exact ⟨h.ledger.same htask hrefs (hfault.trans h.ledger.fault), hpc.trans h.pc,
    htask ▸ h.alive, hblock, hpacket.2.1, hpacket.2.2, htask ▸ h.callback⟩

/-- What else becomes of it leaves it so. -/
theorem Left.outlives (h : c.Left) (hc : c.Outlives c') : c'.Left := by
  cases hc with
  | complete | completeFailed => exact h.answered rfl rfl rfl rfl rfl ⟨rfl, rfl, rfl⟩
  | release href =>
      refine h.drop rfl rfl rfl rfl ?_
      rw [href]
      simp only [Bool.toNat_true, Bool.toNat_false]

end

end Call

/-- No thread is in a call of the service. -/
structure State.Idle {n : ℕ} (s : State n) : Prop where
  outside : s.runPc = .outside
  calls : ∀ o, (s.calls o).pc = .idle ∨ ∃ e, (s.calls o).pc = .returned e

/-- **What the set holds** is left of its operations when no thread is under way. -/
theorem left_of_idle {n : ℕ} {s : State n} (h : (service n).Reachable s) (hidle : s.Idle)
    (hstill : s.Still) {o : OpId} (ho : o ∈ s.currentTasks) : (s.calls o).Left := by
  obtain ⟨halive, hledger, hblock, hrefs⟩ := registered_alive h ho
  have ha : (s.calls o).Accounted := lifecycle_accounted (reachable_life h o)
  have hpc : (s.calls o).pc = .returned none := by
    have hreg : (s.calls o).registered = true := by
      have hcount := (service_coherent h o).tasks
      by_contra hne
      rw [Bool.not_eq_true] at hne
      rw [hne] at hcount
      exact List.count_eq_zero.mp hcount ho
    have hafter := ha.sound.inserted hreg
    rcases hidle.calls o with hpc | ⟨e, hpc⟩
    · rw [hpc] at hafter
      cases hafter
    · cases e with
      | none => exact hpc
      | some e => rw [hpc] at hafter; cases hafter
  have hnot : ∀ stage, (s.calls o).packet ≠ .held stage := by
    intro stage hheld
    obtain ⟨w, hw⟩ := (service_coherent h o).holder stage hheld
    rcases hstill w with hpc | hpc <;> rw [hpc] at hw <;> cases hw
  have hover : (s.calls o).task.hasOverlapped = true := ha.built.handed hpc
  refine ⟨hledger, hpc, halive, hblock, ?_, ?_, ha.built.callback.trans hover⟩
  · cases hp : (s.calls o).packet <;> first | rfl | exact absurd hp (hnot _)
  · cases hp : (s.calls o).packet <;> first | rfl | exact absurd hp (hnot _)

/-! ### The destruction -/

/-- The destructor is past the threads whose stored exceptions it could destroy, and the process
has ended at one whose exception it could not. -/
def Teardown.Storages {n : ℕ} (assertions : Bool) (s : State n) (d : Teardown n) : Prop :=
  match d.pc with
  | .joining i => ∀ w : Fin n, w < i →
      ExceptionPointer.destructorReturns assertions (s.workers w).exceptionStorage = true
  | .releasing | .done => ∀ w,
      ExceptionPointer.destructorReturns assertions (s.workers w).exceptionStorage = true
  | .ended => ∃ w,
      ExceptionPointer.destructorReturns assertions (s.workers w).exceptionStorage = false

/-- A step of the destructor goes past one thread more. -/
theorem Teardown.Storages.next {n : ℕ} {assertions : Bool} {s : State n} {d e : Teardown n}
    (h : d.Storages assertions s) (hworkers : d.service.workers = s.workers)
    (hstep : d.Goes assertions e) : e.Storages assertions s := by
  rw [Storages] at h ⊢
  cases hstep with
  | join i hpc hw hstorage =>
      rw [hpc] at h
      intro w hlt
      rcases Nat.lt_succ_iff_lt_or_eq.mp hlt with hbefore | heq
      · exact h w hbefore
      · rw [Fin.ext heq, ← hworkers]
        exact hstorage
  | endProcess i hpc hw hstorage => exact ⟨i, hworkers ▸ hstorage⟩
  | joined hpc hall =>
      rw [hpc] at h
      exact fun w => h w (Nat.lt_of_lt_of_le w.isLt hall)
  | drop hpc htasks | finish hpc htasks =>
      simp only [hpc] at h ⊢
      exact h

/-- What holds while the service is destroyed: the set and the history of the calls agree, and the
operations that were in it at the beginning are left as they are. -/
structure Teardown.Abandons {n : ℕ} (assertions : Bool) (s : State n) (d : Teardown n) : Prop where
  workers : d.service.workers = s.workers
  storages : d.Storages assertions s
  tasks : ∀ o, d.service.currentTasks.count o = (d.service.calls o).registered.toNat
  subset : ∀ o ∈ d.service.currentTasks, o ∈ s.currentTasks
  left : ∀ o ∈ s.currentTasks, (d.service.calls o).Left
  done : d.pc = .done → d.service.currentTasks = []

/-- The step lemma of `Abandons`: every step of the destruction keeps it. -/
theorem Teardown.Abandons.step {n : ℕ} {assertions : Bool} {s : State n} {d e : Teardown n}
    {l : TeardownLabel n} (h : d.Abandons assertions s) (hstill : s.Still)
    (hstep : d.step assertions l = some e) : e.Abandons assertions s := by
  have hstill' : d.service.Still := hstill.of_eq h.workers
  cases l with
  | next =>
      have hgo : d.Goes assertions e := goes_of_next hstep
      have hstorages : e.Storages assertions s := h.storages.next h.workers hgo
      cases hgo with
      | join i hpc hw hstorage | endProcess i hpc hw hstorage | joined hpc hall =>
          exact ⟨h.workers, hstorages, h.tasks, h.subset, h.left, fun hdone => by cases hdone⟩
      | finish hpc htasks =>
          exact ⟨h.workers, hstorages, h.tasks, h.subset, h.left, fun _ => htasks⟩
      | @drop o rest hpc htasks =>
          have hreg : (d.service.calls o).registered = true := by
            have hcount := h.tasks o
            by_contra hne
            rw [Bool.not_eq_true] at hne
            rw [htasks, hne, List.count_cons_self] at hcount
            cases hcount
          have ho : o ∈ s.currentTasks := h.subset o (htasks ▸ List.mem_cons_self)
          refine ⟨h.workers, hstorages, fun o' => ?_, fun o' ho' => ?_, fun o' ho' => ?_,
            fun hdone => ?_⟩
          · have hcount := h.tasks o'
            rw [htasks] at hcount
            simp only [State.setCall]
            by_cases heq : o' = o
            · subst heq
              rw [List.count_cons_self, hreg] at hcount
              rw [Function.update_self]
              exact Nat.succ.inj hcount
            · rw [List.count_cons_of_ne (Ne.symm heq)] at hcount
              rw [Function.update_of_ne heq]
              exact hcount
          · exact h.subset o' (htasks ▸ List.mem_cons_of_mem _ ho')
          · simp only [State.setCall]
            by_cases heq : o' = o
            · subst heq
              rw [Function.update_self]
              exact (h.left o' ho).unregister hreg
            · rw [Function.update_of_ne heq]
              exact h.left o' ho'
          · rw [hpc] at hdone
            cases hdone
  | other l =>
      obtain ⟨hpc, -, hworkers, htasks, o, c, hc, hcalls⟩ := happens_of_step hstill' hstep
      have hstorages : e.Storages assertions s := by
        rw [Storages, hpc]
        exact h.storages
      refine ⟨hworkers.trans h.workers, hstorages, fun o' => ?_, htasks ▸ h.subset,
        fun o' ho' => ?_, ?_⟩
      · rw [htasks, hcalls, h.tasks o']
        by_cases heq : o' = o
        · subst heq
          rw [Function.update_self]
          cases hc <;> rfl
        · rw [Function.update_of_ne heq]
      · rw [hcalls]
        by_cases heq : o' = o
        · subst heq
          rw [Function.update_self]
          exact (h.left o' ho').outlives hc
        · rw [Function.update_of_ne heq]
          exact h.left o' ho'
      · rw [hpc, htasks]
        exact h.done

/-- **The destructor of an idle service.** -/
structure State.Destroys {n : ℕ} (assertions : Bool) (s : State n) (returned : Bool) : Prop where
  /-- It returns if and only if there are no threads, or some `run()` has returned before and no
  thread has an exception in store that it cannot destroy. -/
  returns : (∃ d, (teardown assertions s).Reachable d ∧ d.pc = .done) ↔
    (n = 0 ∨ returned = true) ∧ ∀ w,
      ExceptionPointer.destructorReturns assertions (s.workers w).exceptionStorage = true
  /-- With such an exception it ends the process. -/
  ends : (∃ d, (teardown assertions s).Reachable d ∧ d.pc = .ended) ↔
    returned = true ∧ ∃ w,
      ExceptionPointer.destructorReturns assertions (s.workers w).exceptionStorage = false
  /-- Before any `run()` it waits for the first thread, which is suspended, for ever. -/
  blocked : 0 < n → returned = false → ∀ d, (teardown assertions s).Reachable d →
    d.pc = .joining 0
  /-- Otherwise it can go on until it returns or ends the process, ... -/
  proceeds : n = 0 ∨ returned = true → ∀ d, (teardown assertions s).Reachable d →
    d.pc ≠ .done → d.pc ≠ .ended → ∃ e, d.next assertions = some e
  /-- ... and takes so many steps at most. -/
  bounded : ∀ ls d,
    (teardown assertions s).execWhere (fun _ _ => True) (teardown assertions s).init ls = some d →
    ls.countP (· = .next) ≤ n + s.currentTasks.length + 2
  /-- An operation no worker has taken is left behind: its task, its block, the buffer and the
  callback are never released, whether the caller drops the task or not. -/
  left : ∀ d, (teardown assertions s).Reachable d → d.pc = .done → d.service.currentTasks = [] ∧
    ∀ o ∈ s.currentTasks, (d.service.calls o).task.destroyed = 0 ∧
      (d.service.calls o).task.refCount = 1 + (d.service.calls o).callerRef.toNat ∧
      (d.service.calls o).task.overlappedReleased = 0 ∧
      (d.service.calls o).task.callbackRefs = 1 ∧
      (d.service.calls o).task.bufferRefs = if (d.service.calls o).task.buffered then 2 else 0

/-- **A suspended thread** holds the destructor up for ever. -/
theorem teardown_blocked {n : ℕ} {assertions : Bool} {s : State n} (hn : 0 < n)
    (hfresh : ∀ w, s.workers w = {}) {d : Teardown n} (hd : (teardown assertions s).Reachable d) :
    d.pc = .joining 0 := by
  have hstill : s.Still := fun w => .inr (by rw [hfresh])
  have hboth : d.service.workers = s.workers ∧ d.pc = .joining 0 := by
    refine hd.invariant (I := fun d => d.service.workers = s.workers ∧ d.pc = .joining 0)
      ⟨rfl, rfl⟩ ?_
    rintro d l e ⟨hworkers, hpc⟩ hstep
    have hstill' : d.service.Still := hstill.of_eq hworkers
    refine ⟨(Teardown.workers_of_step hstill' hstep).trans hworkers, ?_⟩
    cases l with
    | next =>
        rw [teardown] at hstep
        simp only [Teardown.step, Teardown.next, hpc, dif_pos hn, hworkers, hfresh] at hstep
        cases hstep
    | other l =>
        have hgo : d.step assertions (.other l) = some e := hstep
        rw [(Teardown.happens_of_step hstill' hgo).pc, hpc]
  exact hboth.2

section

variable {n : ℕ} {assertions : Bool} {s : State n} {d : Teardown n}

/-- In every state of the destruction the operations that were in the set are left as they are. -/
theorem abandons_of_run (hservice : (service n).Reachable s) (hidle : s.Idle) (hstill : s.Still)
    (hd : (teardown assertions s).Reachable d) : d.Abandons assertions s := by
  refine hd.invariant (I := fun d => d.Abandons assertions s)
    ⟨rfl, fun w hw => absurd hw (Nat.not_lt_zero _),
      fun o => (service_coherent hservice o).tasks, fun _ ho => ho,
      fun o ho => left_of_idle hservice hidle hstill ho, fun hdone => by cases hdone⟩ ?_
  exact fun _ _ _ hd hstep => hd.step hstill hstep

/-- When all threads have ended, the destructor alone comes to one of its two ends. -/
theorem exists_out (hexited : ∀ w, (s.workers w).pc = .exited) :
    ∃ d, (teardown assertions s).Reachable d ∧ (d.pc = .done ∨ d.pc = .ended) := by
  have hstill : s.Still := fun w => .inl (hexited w)
  have hrun : ∃ d, (teardown assertions s).RunWhere (fun _ l => l = .next ∧ True)
      (teardown assertions s).init d ∧ (d.pc = .done ∨ d.pc = .ended) := by
    refine (teardownRank assertions hstill).exists_goal (fun _ hl => hl) (fun d hd hnot => ?_) rfl
    have hworkers : d.service.workers = s.workers := hd
    obtain ⟨hdone, hrunning⟩ := not_or.mp hnot
    obtain ⟨e, he⟩ := Teardown.exists_next (fun w => hworkers ▸ hexited w) hdone hrunning
    exact ⟨.next, e, rfl, trivial, he⟩
  obtain ⟨d, hrun, hd⟩ := hrun
  exact ⟨d, hrun.mono fun _ _ _ => trivial, hd⟩

/-- **Where the destructor ends** when all threads have ended: it returns if every exception in
store can be destroyed, and otherwise ends the process. -/
theorem out_iff (hservice : (service n).Reachable s) (hidle : s.Idle)
    (hexited : ∀ w, (s.workers w).pc = .exited) :
    ((∃ d, (teardown assertions s).Reachable d ∧ d.pc = .done) ↔ ∀ w,
      ExceptionPointer.destructorReturns assertions (s.workers w).exceptionStorage = true) ∧
    ((∃ d, (teardown assertions s).Reachable d ∧ d.pc = .ended) ↔ ∃ w,
      ExceptionPointer.destructorReturns assertions (s.workers w).exceptionStorage = false) := by
  have hstill : s.Still := fun w => .inl (hexited w)
  have hall : ∀ d, (teardown assertions s).Reachable d → d.pc = .done → ∀ w,
      ExceptionPointer.destructorReturns assertions (s.workers w).exceptionStorage = true := by
    intro d hd hdone
    have hstorages := (abandons_of_run hservice hidle hstill hd).storages
    rwa [Teardown.Storages, hdone] at hstorages
  have hsome : ∀ d, (teardown assertions s).Reachable d → d.pc = .ended → ∃ w,
      ExceptionPointer.destructorReturns assertions (s.workers w).exceptionStorage = false := by
    intro d hd hended
    have hstorages := (abandons_of_run hservice hidle hstill hd).storages
    rwa [Teardown.Storages, hended] at hstorages
  obtain ⟨d, hd, hout⟩ := @exists_out n assertions s hexited
  refine ⟨⟨?_, fun hstorages => ?_⟩, ⟨?_, fun hstorage => ?_⟩⟩
  · rintro ⟨e, he, hdone⟩
    exact hall e he hdone
  · rcases hout with hdone | hended
    · exact ⟨d, hd, hdone⟩
    · obtain ⟨w, hw⟩ := hsome d hd hended
      exact absurd (hw.symm.trans (hstorages w)) Bool.false_ne_true
  · rintro ⟨e, he, hended⟩
    exact hsome e he hended
  · rcases hout with hdone | hended
    · obtain ⟨w, hw⟩ := hstorage
      exact absurd (hw.symm.trans (hall d hd hdone w)) Bool.false_ne_true
    · exact ⟨d, hd, hended⟩

/-- **What the destructor leaves behind** when it has returned: the task of an operation that was
in the set, with its block, its buffer and its callback. -/
theorem Teardown.Abandons.left_behind (h : d.Abandons assertions s) (hdone : d.pc = .done)
    {o : OpId} (ho : o ∈ s.currentTasks) :
    (d.service.calls o).task.destroyed = 0 ∧
      (d.service.calls o).task.refCount = 1 + (d.service.calls o).callerRef.toNat ∧
      (d.service.calls o).task.overlappedReleased = 0 ∧
      (d.service.calls o).task.callbackRefs = 1 ∧
      (d.service.calls o).task.bufferRefs =
        if (d.service.calls o).task.buffered then 2 else 0 := by
  have hgone : (d.service.calls o).registered = false := by
    have hcount := h.tasks o
    rw [h.done hdone, List.count_nil] at hcount
    exact Bool.toNat_eq_zero.mp hcount.symm
  have hleft : (d.service.calls o).Left := h.left o ho
  have hover : (d.service.calls o).task.hasOverlapped = true :=
    (Bool.and_eq_true_iff.mp hleft.block).1
  refine ⟨hleft.alive, ?_, hleft.ledger.overlappedReleased, ?_, ?_⟩
  · rw [hleft.ledger.count, hleft.refs_eq, hgone]
    rfl
  · rw [hleft.ledger.callbackRefs, if_pos hleft.callback]
  · rw [hleft.ledger.bufferRefs, if_pos hover]

end

/-- **The service can be destroyed as `Destroys` says** in every state in which no thread is in a
call of it, after any run. -/
theorem destruction_returns {n : ℕ} {s : State n} {returned : Bool} (assertions : Bool)
    (h : (returning n).Reachable (s, returned)) (hidle : s.Idle) :
    s.Destroys assertions returned := by
  have hservice : (service n).Reachable s := h.forget fun _ _ _ => trivial
  have hrests := rests_of_run h (by rw [hidle.outside]; rfl)
  have hexited : n = 0 ∨ returned = true → ∀ w, (s.workers w).pc = .exited := by
    rintro (rfl | rfl)
    · exact fun w => w.elim0
    · exact hrests
  have hstill : s.Still := by
    intro w
    cases returned with
    | true => exact .inl (hrests w)
    | false =>
        have hfresh : s.workers w = {} := hrests w
        rw [hfresh]
        exact .inr rfl
  have hblocked : 0 < n → returned = false → ∀ d, (teardown assertions s).Reachable d →
      d.pc = .joining 0 := by
    rintro hn rfl d hd
    exact teardown_blocked hn hrests hd
  have hfree : (∃ d, (teardown assertions s).Reachable d ∧ d.pc ≠ .joining 0) →
      n = 0 ∨ returned = true := by
    rintro ⟨d, hd, hout⟩
    by_contra hnot
    obtain ⟨hn, hreturned⟩ := not_or.mp hnot
    exact hout (hblocked (Nat.pos_of_ne_zero hn) (Bool.eq_false_iff.mpr hreturned) d hd)
  constructor
  · constructor
    · rintro ⟨d, hd, hdone⟩
      have hended := hfree ⟨d, hd, fun hpc => by rw [hpc] at hdone; cases hdone⟩
      exact ⟨hended, (out_iff hservice hidle (hexited hended)).1.mp ⟨d, hd, hdone⟩⟩
    · rintro ⟨hended, hstorages⟩
      exact (out_iff hservice hidle (hexited hended)).1.mpr hstorages
  · constructor
    · rintro ⟨d, hd, hend⟩
      have hended := hfree ⟨d, hd, fun hpc => by rw [hpc] at hend; cases hend⟩
      obtain ⟨w, hw⟩ := (out_iff hservice hidle (hexited hended)).2.mp ⟨d, hd, hend⟩
      refine ⟨hended.resolve_left ?_, w, hw⟩
      rintro rfl
      exact w.elim0
    · rintro ⟨hreturned, hstorage⟩
      exact (out_iff hservice hidle (hexited (.inr hreturned))).2.mpr hstorage
  · exact hblocked
  · intro hended d hd
    have hworkers := (abandons_of_run hservice hidle hstill hd).workers
    exact Teardown.exists_next fun w => hworkers ▸ hexited hended w
  · intro ls d hrun
    have hcount := (teardownRank assertions hstill).countP_le hrun rfl
    have hrank : (teardownRank assertions hstill).rank (teardown assertions s).init =
        n + s.currentTasks.length + 2 := rfl
    omega
  · intro d hd hdone
    have habandons := abandons_of_run hservice hidle hstill hd
    exact ⟨habandons.done hdone, fun o ho => habandons.left_behind hdone ho⟩

/-! ### A concrete destruction -/

/-- A run about one operation makes no other call. -/
theorem calls_of_first {n : ℕ} {p : State n × Bool}
    (h : (returning n).RunWhere (fun p l => ∀ x ∈ p.1.eventOf l, x.1 = 0) (returning n).init p)
    {o : OpId} (ho : o ≠ 0) : p.1.calls o = {} := by
  have hboth : p.1.Coherent ∧ p.1.calls o = {} := by
    refine h.invariant (I := fun p => p.1.Coherent ∧ p.1.calls o = {})
      ⟨State.coherent_init n, rfl⟩ ?_
    rintro p l q ⟨hcoh, hcall⟩ hfirst hstep
    have hmoves := State.moves_of_step hcoh (Machine.step_withHistory hstep).1
    refine ⟨hmoves.coherent hcoh, ?_⟩
    rcases hmoves.calls o with hsame | ⟨ev, hev, -⟩
    · exact hsame.trans hcall
    · exact absurd (hfirst _ hev) ho
  exact hboth.2

/-- The destructor returns, and leaves the read behind. -/
theorem destruction_returns_read :
    ∃ s : State 1, s.currentTasks = [0] ∧ (s.calls 0).kernelPending = true ∧
      s.Destroys true true := by
  obtain ⟨p, hrun, htasks, hpending, hpc, hcall, hreturned⟩ := Machine.exists_runWhere
    (M := returning 1) (G := fun p l => ∀ x ∈ p.1.eventOf l, x.1 = 0) (s := (returning 1).init)
    (P := fun p => p.1.currentTasks = [0] ∧ (p.1.calls 0).kernelPending = true ∧
      p.1.runPc = .outside ∧ (p.1.calls 0).pc = .returned none ∧ p.2 = true)
    ([.submit 0 (.call .read false), .submit 0 (.alloc true), .submit 0 (.alloc true),
      .submit 0 (.issue .success)] ++ submitUpToInsert ++ submitUpToReturn ++ startUp ++
      [.run .spurious, .run .go, .run .go, .worker 0 .go, .run .go, .run .go, .run .go, .run .go])
    (by decide)
  have hidle : p.1.Idle := by
    refine ⟨hpc, fun o => ?_⟩
    by_cases ho : o = 0
    · exact .inr ⟨none, ho ▸ hcall⟩
    · exact .inl (by rw [calls_of_first hrun ho])
  have hdestroys : p.1.Destroys true p.2 :=
    @destruction_returns 1 p.1 p.2 true (hrun.mono fun _ _ _ => trivial) hidle
  exact ⟨p.1, htasks, hpending, hreturned ▸ hdestroys⟩

end Netknot.Win32
