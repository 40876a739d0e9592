import Netknot.Address
import Netknot.Win32.AsyncTask

/-!
# Submitting an Operation on Unix

`UnixSocket::readAsync`, `writeAsync` and `acceptAsync`, with `UnixIOService::postAsyncTask`. The
three make a task, store the callback in it, put it into `currentTasks` and hand it to the caller;
nothing is asked of the operating system, and no code of the backend looks at `currentTasks` again.
So a call is one step here: no other thread knows its task before it returns.

The owner of the task during the call is an `RcObjectPtr` in `readAsync`, which counts, and a
`std::unique_ptr` with `AsyncTaskDeleter` in the other two, which does not and runs `onRefZero`
when it is left holding the task. `postAsyncTask` builds an `RcObjectPtr` for the set from the raw
pointer: when the set has no room for it, it goes again and takes the task along that nobody else
has counted. `acceptAsync` makes a socket as well, and a `UnixSocket` that is destroyed with its
descriptor ends the process.

## Main results

* `readAsync_cases`, `writeAsync_cases`, `acceptAsync_cases`: the exits of the three calls.
* `submissions_accounted_iff`: what becomes of the tasks, in runs of any calls, and how long.
-/

namespace Netknot.Unix

/-- A call of `readAsync`, `writeAsync` or `acceptAsync`, and with it the task it makes. -/
abbrev CallId := ℕ

/-- A `UnixReadAsyncTask`, `UnixWriteAsyncTask` or `UnixAcceptAsyncTask`. -/
structure AsyncTask where
  /-- `_refCount`. -/
  refCount : ℕ := 0
  status : AsyncTaskStatus := .ready
  /-- `szRead` or `szWritten`. -/
  szOperated : ℕ := 0
  /-- `callback` is not null. -/
  hasCallback : Bool := false
  /-- Ledger: how often the destructor ran and the object was released. -/
  destroyed : ℕ := 0
  deriving DecidableEq, Repr

namespace AsyncTask

/-- `AsyncTask::incRef`. -/
def incRef (t : AsyncTask) : AsyncTask := { t with refCount := Win32.incSize t.refCount }

/-- `onRefZero`. The destructor of a task of this backend does nothing. -/
def onRefZero (t : AsyncTask) : AsyncTask := { t with destroyed := t.destroyed + 1 }

/-- `AsyncTask::decRef`. -/
def decRef (t : AsyncTask) : AsyncTask :=
  let t := { t with refCount := Win32.decSize t.refCount }
  if t.refCount = 0 then t.onRefZero else t

/-- `task->callback = callback`. -/
def storeCallback (t : AsyncTask) : AsyncTask := { t with hasCallback := true }

end AsyncTask

/-- The tasks of a `UnixIOService`. -/
structure Tasks where
  /-- The task a call made. -/
  tasks : CallId → Option AsyncTask := fun _ => none
  currentTasks : List CallId := []
  /-- What a call returned. -/
  result : CallId → Option ExceptionPointer := fun _ => none
  /-- The caller has the reference that came with `asyncTaskOut`. -/
  callerRef : CallId → Bool := fun _ => false
  /-- The process ended in `std::terminate`. -/
  aborted : Bool := false

/-- What can go wrong in a call. -/
structure SubmitChoices where
  /-- The task finds memory. -/
  task : Bool := true
  /-- `acceptAsync`: the `UnixSocket` finds memory. -/
  socket : Bool := true
  /-- `acceptAsync`: `socket()` gives a descriptor. -/
  descriptor : Bool := true
  /-- `currentTasks.insert` succeeds. -/
  insert : Bool := true
  deriving DecidableEq, Repr

namespace Tasks

/-- The task of call `o` becomes `t`. -/
def setTask (s : Tasks) (o : CallId) (t : AsyncTask) : Tasks :=
  { s with tasks := Function.update s.tasks o (some t) }

/-- The task of call `o` is made. -/
def construct (s : Tasks) (o : CallId) : Tasks := s.setTask o {}

/-- Something is done to the task of call `o`. -/
def touch (s : Tasks) (o : CallId) (f : AsyncTask → AsyncTask) : Tasks :=
  { s with tasks := Function.update s.tasks o ((s.tasks o).map f) }

/-- `asyncTaskOut` is assigned, behind `task->incRef(..)`. -/
def share (s : Tasks) (o : CallId) : Tasks :=
  { s.touch o AsyncTask.incRef with callerRef := Function.update s.callerRef o true }

/-- `UnixIOService::postAsyncTask`. -/
def postAsyncTask (s : Tasks) (o : CallId) (insert : Bool) : ExceptionPointer × Tasks :=
  let s := s.touch o AsyncTask.incRef
  if insert then (none, { s with currentTasks := o :: s.currentTasks })
  else (some .outOfMemory, s.touch o AsyncTask.decRef)

/-- `UnixSocket::readAsync`. -/
def readAsync (s : Tasks) (o : CallId) (ch : SubmitChoices) : ExceptionPointer × Tasks :=
  if !ch.task then (some .outOfMemory, s)
  else
    let s := ((s.construct o).touch o AsyncTask.incRef).touch o AsyncTask.storeCallback
    match s.postAsyncTask o ch.insert with
    | (some e, s) => (some e, s.touch o AsyncTask.decRef)
    | (none, s) => (none, (s.share o).touch o AsyncTask.decRef)

/-- `UnixSocket::writeAsync`. -/
def writeAsync (s : Tasks) (o : CallId) (ch : SubmitChoices) : ExceptionPointer × Tasks :=
  if !ch.task then (some .outOfMemory, s)
  else
    let s := (s.construct o).touch o AsyncTask.storeCallback
    match s.postAsyncTask o ch.insert with
    | (some e, s) => (some e, s.touch o AsyncTask.onRefZero)
    | (none, s) => (none, s.share o)

/-- `UnixSocket::acceptAsync`, on a socket of this family; `none` is `std::terminate`. -/
def acceptAsync (s : Tasks) (o : CallId) (addressFamily : UUID) (ch : SubmitChoices) :
    Option (ExceptionPointer × Tasks) :=
  if !ch.task then some (some .outOfMemory, s)
  else
    let s := s.construct o
    -- `ioService->createSocket(..)`
    if !ch.socket then some (some .outOfMemory, s.touch o AsyncTask.onRefZero)
    else if addressFamily ≠ ADDRFAM_IPV4 ∧ addressFamily ≠ ADDRFAM_IPV6 then none
    else if !ch.descriptor then none
    else do
      let _ ← UnixIOService.translateAddress .little (fun _ => false)
        { addressFamily := addressFamily } false
      match (s.touch o AsyncTask.storeCallback).postAsyncTask o ch.insert with
      -- `newSocket` goes first, and `~UnixSocket` finds its descriptor
      | (some _, _) => none
      | (none, s) => some (none, s.share o)

/-- A call returns. -/
def returns (s : Tasks) (o : CallId) (r : ExceptionPointer × Tasks) : Tasks :=
  { r.2 with result := Function.update s.result o (some r.1) }

end Tasks

/-- The calls, and what their callers do with the task. -/
inductive TaskLabel
  | submit (o : CallId) (kind : AsyncTaskType) (addressFamily : UUID) (ch : SubmitChoices)
  /-- The caller drops the reference it got with `asyncTaskOut`. -/
  | release (o : CallId)
  deriving DecidableEq

namespace Tasks

/-- One call. -/
def submit (s : Tasks) (o : CallId) (kind : AsyncTaskType) (addressFamily : UUID)
    (ch : SubmitChoices) : Option (ExceptionPointer × Tasks) :=
  match kind with
  | .read => some (s.readAsync o ch)
  | .write => some (s.writeAsync o ch)
  | .accept => s.acceptAsync o addressFamily ch

/-- One step; nothing moves after `std::terminate`. -/
def step (s : Tasks) (l : TaskLabel) : Option Tasks :=
  if s.aborted then none
  else
    match l with
    | .submit o kind addressFamily ch =>
        if (s.result o).isNone then
          match s.submit o kind addressFamily ch with
          | none => some { s with aborted := true }
          | some r => some (s.returns o r)
        else none
    | .release o =>
        if s.callerRef o then
          some { s.touch o AsyncTask.decRef with
            callerRef := Function.update s.callerRef o false }
        else none

end Tasks

/-- The tasks as a machine. -/
def submissions : Machine Tasks TaskLabel where
  init := {}
  step := Tasks.step

/-! ### The exits of the calls -/

namespace Tasks

@[simp] theorem setTask_touch (s : Tasks) (o : CallId) (t : AsyncTask)
    (f : AsyncTask → AsyncTask) : (s.setTask o t).touch o f = s.setTask o (f t) := by
  simp [touch, setTask]

/-- Posting the task of a call puts it into the set with one reference more, or drops that
reference again. -/
theorem setTask_postAsyncTask (s : Tasks) (o : CallId) (t : AsyncTask) (insert : Bool) :
    (s.setTask o t).postAsyncTask o insert =
      if insert then (none, { s with currentTasks := o :: s.currentTasks }.setTask o t.incRef)
      else (some .outOfMemory, s.setTask o t.incRef.decRef) := by
  cases insert <;> simp only [postAsyncTask, setTask_touch] <;> rfl

/-- The set and the caller have the task. -/
def accept (s : Tasks) (o : CallId) (t : AsyncTask) : Tasks :=
  ({ s with
    currentTasks := o :: s.currentTasks
    callerRef := Function.update s.callerRef o true } : Tasks).setTask o t

/-- The caller gets a task that is in the set. -/
theorem setTask_share (s : Tasks) (o : CallId) (t : AsyncTask) :
    ({ s with currentTasks := o :: s.currentTasks }.setTask o t).share o =
      s.accept o t.incRef := by
  simp only [share, setTask_touch]
  rfl

@[simp] theorem accept_touch (s : Tasks) (o : CallId) (t : AsyncTask)
    (f : AsyncTask → AsyncTask) : (s.accept o t).touch o f = s.accept o (f t) :=
  setTask_touch _ _ _ _

end Tasks

/-- **The condition on a call**: it does not come to an exit at which the count of its task and
the owner of it disagree, or at which `acceptAsync` has made a socket. -/
def SubmitChoices.tidy (ch : SubmitChoices) (kind : AsyncTaskType) (addressFamily : UUID) : Bool :=
  match kind with
  | .read => true
  | .write => !ch.task || ch.insert
  | .accept =>
      !ch.task || !ch.socket || (addressFamily = ADDRFAM_IPV4 && ch.descriptor && ch.insert)

/-- **How a call ends**, by whether it meets the condition. -/
inductive Ends (s : Tasks) (o : CallId) : Bool → Option (ExceptionPointer × Tasks) → Prop
  /-- The task found no memory. -/
  | unmade : Ends s o true (some (some .outOfMemory, s))
  /-- The task was destroyed, and nobody has it. -/
  | undone (hasCallback : Bool) :
      Ends s o true
        (some (some .outOfMemory, s.setTask o { hasCallback := hasCallback, destroyed := 1 }))
  /-- The set and the caller have a reference each. -/
  | accepted : Ends s o true (some (none, s.accept o { refCount := 2, hasCallback := true }))
  /-- The task was destroyed by its count, and again by its owner. -/
  | undoneTwice :
      Ends s o false
        (some (some .outOfMemory, s.setTask o { hasCallback := true, destroyed := 2 }))
  /-- The process has ended. -/
  | terminated : Ends s o false none

/-- `readAsync` has these exits. -/
theorem readAsync_cases (s : Tasks) (o : CallId) (ch : SubmitChoices) :
    Ends s o true (some (s.readAsync o ch)) := by
  rw [Tasks.readAsync]
  cases ch.task with
  | false => exact .unmade
  | true =>
      rw [Bool.not_true, if_neg Bool.false_ne_true]
      simp only [Tasks.construct, Tasks.setTask_touch, Tasks.setTask_postAsyncTask]
      cases ch.insert with
      | false =>
          simp only [Bool.false_eq_true, if_false, Tasks.setTask_touch]
          exact .undone true
      | true =>
          simp only [if_true, Tasks.setTask_share, Tasks.accept_touch]
          exact .accepted

/-- `writeAsync` has these exits. -/
theorem writeAsync_cases (s : Tasks) (o : CallId) (ch : SubmitChoices) :
    Ends s o (!ch.task || ch.insert) (some (s.writeAsync o ch)) := by
  rw [Tasks.writeAsync]
  cases ch.task with
  | false => exact .unmade
  | true =>
      rw [Bool.not_true, if_neg Bool.false_ne_true]
      simp only [Tasks.construct, Tasks.setTask_touch, Tasks.setTask_postAsyncTask]
      cases ch.insert with
      | false =>
          simp only [Bool.false_eq_true, if_false, Tasks.setTask_touch]
          exact .undoneTwice
      | true =>
          simp only [if_true, Tasks.setTask_share]
          exact .accepted

/-- A call that asks for the size of a translated address returns it. -/
theorem translateAddress_size (addressFamily : UUID) :
    UnixIOService.translateAddress .little (fun _ => false) { addressFamily := addressFamily }
        false =
      if addressFamily = ADDRFAM_IPV4 then some { compiledAddressSizeOut := some sizeofSockaddrIn }
      else none := by
  simp [UnixIOService.translateAddress, translate]

/-- `acceptAsync` has these exits. -/
theorem acceptAsync_cases (s : Tasks) (o : CallId) (addressFamily : UUID) (ch : SubmitChoices) :
    Ends s o (ch.tidy .accept addressFamily) (s.acceptAsync o addressFamily ch) := by
  rw [Tasks.acceptAsync, SubmitChoices.tidy, translateAddress_size]
  cases ch.task with
  | false => exact .unmade
  | true =>
      rw [Bool.not_true, if_neg Bool.false_ne_true]
      simp only [Tasks.construct, Tasks.setTask_touch, Tasks.setTask_postAsyncTask]
      cases ch.socket with
      | false => exact .undone false
      | true =>
          by_cases hfamily : addressFamily = ADDRFAM_IPV4
          · cases ch.descriptor <;> cases ch.insert <;>
              simp only [hfamily, ne_eq, not_true_eq_false, false_and, if_true, if_false,
                Bool.not_true, Bool.not_false, Bool.false_eq_true, decide_true, Bool.false_or,
                Bool.true_and, Bool.false_and, Option.bind_eq_bind, Option.bind_some,
                Tasks.setTask_share]
            · exact .terminated
            · exact .terminated
            · exact .terminated
            · exact .accepted
          · simp only [hfamily, decide_false, Bool.not_true, Bool.false_and, Bool.or_self,
              Bool.false_eq_true, if_false, Option.bind_eq_bind, Option.bind_none, ne_eq,
              not_false_eq_true, true_and]
            split
            · exact .terminated
            · split <;> exact .terminated

/-- **The three calls** have these exits. -/
theorem ends_submit (s : Tasks) (o : CallId) (kind : AsyncTaskType) (addressFamily : UUID)
    (ch : SubmitChoices) :
    Ends s o (ch.tidy kind addressFamily) (s.submit o kind addressFamily ch) := by
  cases kind with
  | read => exact readAsync_cases s o ch
  | write => exact writeAsync_cases s o ch
  | accept => exact acceptAsync_cases s o addressFamily ch

/-! ### The tasks of a process -/

namespace Tasks

/-- **What becomes of the task of a call**: before the call there is none; when the call
succeeded it is in the set, alive and with a reference for the set and for the caller; when it
failed there is none, or it was destroyed once. -/
def AccountedAt (s : Tasks) (o : CallId) : Prop :=
  match s.result o with
  | none => o ∉ s.currentTasks ∧ s.callerRef o = false
  | some none =>
      o ∈ s.currentTasks ∧
        s.tasks o = some { refCount := 1 + (s.callerRef o).toNat, hasCallback := true }
  | some (some _) =>
      (o ∉ s.currentTasks ∧ s.callerRef o = false) ∧
        ∀ t, s.tasks o = some t → t.refCount = 0 ∧ t.destroyed = 1

/-- All tasks are accounted for, and the process goes on. -/
structure Accounted (s : Tasks) : Prop where
  running : s.aborted = false
  unmade : ∀ o, s.result o = none → s.tasks o = none
  tasks : ∀ o, s.AccountedAt o

/-- **The step condition**: a submit call meets `SubmitChoices.tidy`. -/
def tidy : TaskLabel → Bool
  | .submit _ kind addressFamily ch => ch.tidy kind addressFamily
  | .release _ => true

/-- What is said of a call depends on its own task. -/
theorem accountedAt_congr {s t : Tasks} {o : CallId} (hresult : t.result o = s.result o)
    (htask : t.tasks o = s.tasks o) (hmem : o ∈ t.currentTasks ↔ o ∈ s.currentTasks)
    (href : t.callerRef o = s.callerRef o) : t.AccountedAt o ↔ s.AccountedAt o := by
  rw [AccountedAt, AccountedAt, hresult, htask, hmem, href]

/-- **What a step does** to the tasks, one case per label. -/
inductive Moves (s : Tasks) : TaskLabel → Tasks → Prop
  | submit {o : CallId} {kind : AsyncTaskType} {addressFamily : UUID} {ch : SubmitChoices}
      (new : s.result o = none) {tidy : Bool} (htidy : ch.tidy kind addressFamily = tidy)
      {r : Option (ExceptionPointer × Tasks)} (ends : Ends s o tidy r) :
      Moves s (.submit o kind addressFamily ch)
        (r.elim { s with aborted := true } (s.returns o))
  | release {o : CallId} (held : s.callerRef o = true) :
      Moves s (.release o) { s.touch o AsyncTask.decRef with
        callerRef := Function.update s.callerRef o false }

/-- The inversion of a step: it makes one of the moves. -/
theorem moves_of_step {s t : Tasks} {l : TaskLabel} (hstep : s.step l = some t) :
    s.Moves l t := by
  unfold step at hstep
  split at hstep
  · cases hstep
  cases l with
  | submit o kind addressFamily ch =>
      obtain ⟨hnew, hstep⟩ := Option.ite_none_right_eq_some.mp hstep
      have hmoves : s.Moves (.submit o kind addressFamily ch) _ :=
        .submit (Option.isNone_iff_eq_none.mp hnew) rfl (ends_submit s o kind addressFamily ch)
      cases hr : s.submit o kind addressFamily ch with
      | none =>
          rw [hr] at hstep hmoves
          obtain rfl := Option.some.inj hstep
          exact hmoves
      | some r =>
          rw [hr] at hstep hmoves
          obtain rfl := Option.some.inj hstep
          exact hmoves
  | release o =>
      obtain ⟨hheld, rfl⟩ := Option.ite_none_right_eq_some.mp hstep |>.imp_right Option.some.inj
      exact .release hheld

/-- **Nothing leaves the set**, whatever is done. -/
theorem currentTasks_subset_of_step {s t : Tasks} {l : TaskLabel} (hstep : s.step l = some t) :
    s.currentTasks ⊆ t.currentTasks := by
  cases moves_of_step hstep with
  | submit new htidy ends =>
      cases ends with
      | unmade | undone | undoneTwice | terminated => exact List.Subset.refl _
      | accepted => exact List.subset_cons_self _ _
  | release held => exact List.Subset.refl _

/-- The tasks stay accounted for when one call returned whose own task is, and the others are as
they were. -/
theorem Accounted.returns {s t : Tasks} (h : s.Accounted) {o : CallId} {e : ExceptionPointer}
    (hsame : t.aborted = s.aborted ∧ ∀ o' ≠ o, t.tasks o' = s.tasks o' ∧
      (o' ∈ t.currentTasks ↔ o' ∈ s.currentTasks) ∧ t.callerRef o' = s.callerRef o')
    (hat : (s.returns o (e, t)).AccountedAt o) : (s.returns o (e, t)).Accounted := by
  obtain ⟨haborted, hother⟩ := hsame
  have hresult : ∀ o' ≠ o, (s.returns o (e, t)).result o' = s.result o' := fun o' hne =>
    Function.update_of_ne hne _ _
  refine ⟨haborted.trans h.running, fun o' hnew => ?_, fun o' => ?_⟩
  · have hne : o' ≠ o := by
      rintro rfl
      exact absurd ((Function.update_self _ _ _).symm.trans hnew) (Option.some_ne_none _)
    exact (hother o' hne).1.trans (h.unmade o' ((hresult o' hne).symm.trans hnew))
  · by_cases hne : o' = o
    · rw [hne]
      exact hat
    · obtain ⟨htask, hmem, href⟩ := hother o' hne
      exact (accountedAt_congr (hresult o' hne) htask hmem href).mpr (h.tasks o')

/-- A new call finds its task out of the set and without a reference of the caller. -/
theorem Accounted.of_new {s : Tasks} (h : s.Accounted) {o : CallId} (hnew : s.result o = none) :
    o ∉ s.currentTasks ∧ s.callerRef o = false := by
  have hat := h.tasks o
  rwa [AccountedAt, hnew] at hat

/-- A failed call whose task became `task` keeps the tasks accounted for if and only if that was
destroyed once. -/
theorem Accounted.undone {s : Tasks} (h : s.Accounted) {o : CallId} (hnew : s.result o = none)
    (task : AsyncTask) (hrefs : task.refCount = 0) :
    (s.returns o (some .outOfMemory, s.setTask o task)).Accounted ↔ task.destroyed = 1 := by
  have hresult : (s.returns o (some .outOfMemory, s.setTask o task)).result o =
      some (some .outOfMemory) := Function.update_self _ _ _
  have htask : (s.setTask o task).tasks o = some task := Function.update_self _ _ _
  constructor
  · intro hall
    have hat := hall.tasks o
    rw [AccountedAt, hresult] at hat
    exact (hat.2 task htask).2
  · intro hdestroyed
    refine h.returns ⟨rfl, fun o' hne => ⟨Function.update_of_ne hne _ _, Iff.rfl, rfl⟩⟩ ?_
    rw [AccountedAt, hresult]
    refine ⟨h.of_new hnew, fun t ht => ?_⟩
    obtain rfl := Option.some.inj (htask.symm.trans ht)
    exact ⟨hrefs, hdestroyed⟩

/-- A call that found no memory for its task keeps the tasks accounted for. -/
theorem Accounted.without_task {s : Tasks} (h : s.Accounted) {o : CallId}
    (hnew : s.result o = none) : (s.returns o (some .outOfMemory, s)).Accounted := by
  refine h.returns ⟨rfl, fun o' _ => ⟨rfl, Iff.rfl, rfl⟩⟩ ?_
  have hresult : (s.returns o (some .outOfMemory, s)).result o = some (some .outOfMemory) :=
    Function.update_self _ _ _
  rw [AccountedAt, hresult]
  exact ⟨h.of_new hnew, fun t ht => by cases ht.symm.trans (h.unmade o hnew)⟩

/-- A call that succeeded keeps the tasks accounted for. -/
theorem Accounted.accept {s : Tasks} (h : s.Accounted) (o : CallId) :
    (s.returns o (none, s.accept o { refCount := 2, hasCallback := true })).Accounted := by
  refine h.returns ⟨rfl, fun o' hne => ⟨Function.update_of_ne hne _ _, ?_,
    Function.update_of_ne hne _ _⟩⟩ ?_
  · exact ⟨fun hmem => (List.mem_cons.mp hmem).resolve_left hne, List.mem_cons_of_mem o⟩
  · have hresult : (s.returns o (none,
        s.accept o { refCount := 2, hasCallback := true })).result o = some none :=
      Function.update_self _ _ _
    have href : (s.accept o { refCount := 2, hasCallback := true }).callerRef o = true :=
      Function.update_self _ _ _
    have htask : (s.accept o { refCount := 2, hasCallback := true }).tasks o =
        some { refCount := 2, hasCallback := true } := Function.update_self _ _ _
    rw [AccountedAt, hresult]
    refine ⟨List.mem_cons_self, htask.trans ?_⟩
    rw [show (s.returns o (none, s.accept o { refCount := 2, hasCallback := true })).callerRef o =
      true from href]
    rfl

/-- The tasks stay accounted for when the caller drops its reference. -/
theorem Accounted.release {s : Tasks} (h : s.Accounted) {o : CallId}
    (hheld : s.callerRef o = true) :
    Accounted { s.touch o AsyncTask.decRef with
      callerRef := Function.update s.callerRef o false } := by
  have hat := h.tasks o
  obtain ⟨hresult, hmem, htask⟩ : s.result o = some none ∧ o ∈ s.currentTasks ∧
      s.tasks o = some { refCount := 2, hasCallback := true } := by
    rw [AccountedAt] at hat
    split at hat
    · exact absurd (hheld.symm.trans hat.2) (by decide)
    · rename_i hresult
      rw [hheld] at hat
      exact ⟨hresult, hat⟩
    · exact absurd (hheld.symm.trans hat.1.2) (by decide)
  refine ⟨h.running, fun o' hnew => ?_, fun o' => ?_⟩
  · have hne : o' ≠ o := by
      rintro rfl
      cases hresult.symm.trans hnew
    exact (Function.update_of_ne hne _ _).trans (h.unmade o' hnew)
  · by_cases hne : o' = o
    · subst hne
      rw [AccountedAt]
      simp only [touch, hresult, htask, Option.map_some, Function.update_self]
      exact ⟨hmem, rfl⟩
    · have htask' : (s.touch o AsyncTask.decRef).tasks o' = s.tasks o' :=
        Function.update_of_ne hne _ _
      have href' : Function.update s.callerRef o false o' = s.callerRef o' :=
        Function.update_of_ne hne _ _
      exact (@accountedAt_congr s
        { s.touch o AsyncTask.decRef with callerRef := Function.update s.callerRef o false } o'
        rfl htask' Iff.rfl href').mpr (h.tasks o')

/-- **The step lemma**: a step keeps the tasks accounted for exactly when it meets the
condition. -/
theorem Accounted.step_iff {s t : Tasks} (h : s.Accounted) {l : TaskLabel}
    (hstep : s.step l = some t) : t.Accounted ↔ tidy l = true := by
  cases moves_of_step hstep with
  | @submit o kind addressFamily ch new b htidy r ends =>
      rw [show tidy (.submit o kind addressFamily ch) = b from htidy]
      cases ends with
      | unmade => exact iff_of_true (h.without_task new) rfl
      | undone hasCallback => exact iff_of_true ((h.undone new _ rfl).mpr rfl) rfl
      | accepted => exact iff_of_true (h.accept o) rfl
      | undoneTwice =>
          refine iff_of_false (fun hall => ?_) Bool.false_ne_true
          exact absurd ((h.undone new _ rfl).mp hall) (by decide)
      | terminated =>
          refine iff_of_false (fun hall => ?_) Bool.false_ne_true
          exact absurd hall.running (by simp)
  | release held => exact iff_of_true (h.release held) rfl

end Tasks

/-! ### Whole runs -/

/-- Nothing leaves the set in any run. -/
theorem currentTasks_subset_of_run {G : Tasks → TaskLabel → Prop} {s t : Tasks}
    (h : submissions.RunWhere G s t) : s.currentTasks ⊆ t.currentTasks :=
  h.invariant (I := fun t => s.currentTasks ⊆ t.currentTasks) (List.Subset.refl _)
    fun _ _ _ hs _ hstep => List.Subset.trans hs (Tasks.currentTasks_subset_of_step hstep)

/-- **The tasks are accounted for**, in any run of any calls. As long as each call meets the
condition, every task that was handed out is in the set with a reference of the set and one of its
caller, until that is dropped, and every other one was destroyed once; a call that does not meet
it destroys its task twice or ends the process. What is in the set never leaves it, so no task
that was handed out is ever done, and none is destroyed. -/
theorem submissions_accounted_iff {s : Tasks}
    (h : submissions.RunWhere (fun _ l => Tasks.tidy l = true) submissions.init s) :
    s.Accounted ∧
      (∀ l t, s.step l = some t → (t.Accounted ↔ Tasks.tidy l = true)) ∧
      ∀ o t, o ∈ s.currentTasks → submissions.RunWhere (fun _ l => Tasks.tidy l = true) s t →
        o ∈ t.currentTasks ∧
          t.tasks o = some { refCount := 1 + (t.callerRef o).toNat, hasCallback := true } := by
  have hrun : ∀ t, submissions.RunWhere (fun _ l => Tasks.tidy l = true) submissions.init t →
      t.Accounted := fun t ht =>
    ht.invariant ⟨rfl, fun _ _ => rfl, fun _ => ⟨List.not_mem_nil, rfl⟩⟩
      fun _ _ _ hs hl hstep => (hs.step_iff hstep).mpr hl
  refine ⟨hrun s h, fun l t hstep => (hrun s h).step_iff hstep, fun o t hmem ht => ?_⟩
  have hmem' : o ∈ t.currentTasks := currentTasks_subset_of_run ht hmem
  have hat := (hrun t (h.trans ht)).tasks o
  rw [Tasks.AccountedAt] at hat
  split at hat
  · exact absurd hmem' hat.1
  · exact hat
  · exact absurd hmem' hat.1.1

/-- A read that is accepted and given up is accounted for, behind a write that found no memory for
its task. -/
theorem submissions_accounted_read :
    ∃ s : Tasks, 1 ∈ s.currentTasks ∧ s.callerRef 1 = false ∧
      s.tasks 1 = some { refCount := 1, hasCallback := true } := by
  obtain ⟨s, hrun, hmem, href⟩ := Machine.exists_runWhere (M := submissions)
    (G := fun _ l => Tasks.tidy l = true) (s := submissions.init)
    (P := fun s => 1 ∈ s.currentTasks ∧ s.callerRef 1 = false)
    [.submit 0 .write ADDRFAM_IPV4 { task := false }, .submit 1 .read ADDRFAM_IPV4 {}, .release 1]
    (by decide)
  have htask := ((submissions_accounted_iff hrun).2.2 1 s hmem .refl).2
  rw [href] at htask
  exact ⟨s, hmem, href, htask⟩

/-- A write for which the set has no room. -/
example : (submissions.step submissions.init
    (.submit 0 .write ADDRFAM_IPV4 { insert := false })).bind (·.tasks 0) =
      some { refCount := 0, hasCallback := true, destroyed := 2 } := by
  decide

end Netknot.Unix
