import Netknot.Win32.Service

/-!
# The Life of One Operation

The service seen from one operation: the steps that the submitting thread, the kernel and
the worker with its packet in hand take on a single `Call`. Everything else the service
does leaves the call alone. `lifecycle` is that machine; it reads the packet phase and the
membership in `currentTasks` from the history of the call, and `Netknot.Win32.Projection`
proves that history right: every run of `service n` is, for each operation, a run of
`lifecycle`.

What is proved of one operation are invariants of `lifecycle`, under a step condition that
says which of its steps a run does not take.

## Main results

* `lifecycle_sound`: what the program point of the submitting thread, the packet phase, the
  membership in `currentTasks` and the failing exits say about each other, in every run.
-/

namespace Netknot.Win32

/-- What can happen to one operation. -/
inductive Event
  /-- A step of its submit call. -/
  | submit (choice : SubmitChoice)
  /-- The kernel completes it. -/
  | complete
  /-- The kernel fails it. -/
  | completeFailed
  /-- A worker takes its success packet. -/
  | dequeue
  /-- A worker takes its failure packet. -/
  | takeFailed
  /-- The worker with its packet in hand moves from `stage`. -/
  | handle (stage : Stage) (szTransferred : ℕ) (choice : WorkerChoice)
  deriving DecidableEq, Repr

namespace Call

/-- What `State.handlingStep` does to the call. -/
def handle (c : Call) (sz : ℕ) : Stage → WorkerChoice → Option Call
  | .dequeued, .go => some c.holdRaw
  | .locked, .go => some (if c.registered then c.remove else c.atStage (.dropRaw false false))
  | .removed, .go => some c.dropOverlappedRef
  | .unlocked, .go => some (c.addTransferred sz)
  | .counted, .go => some c.setDone
  | .marked, .go => some c.invoke
  | .callback, .stop => some (c.atStage .stopStore)
  | .stopStore, .go => some (c.atStage .stopWake)
  | .stopWake, .go => some (c.atStage .callback)
  | .callback, .ret e => some (c.atStage (if e.isSome then .failing else .dropTask false))
  | .failing, .go => some (c.atStage (.dropTask true))
  | .dropTask exits, .go => some (c.dropTask exits)
  | .dropRaw _ hit, .go => some (c.dropRaw hit)
  | _, _ => none

/-- What a step of the submit call does to the call; nothing when it ends the process. -/
def submitted (c : Call) (choice : SubmitChoice) : Option Call :=
  match c.submit choice with
  | some (.next c') => some c'
  | some (.registers c') => some c'
  | _ => none

/-- What an event does to the call. -/
def after (c : Call) : Event → Option Call
  | .submit choice => c.submitted choice
  | .complete => if c.packet = .pending then some c.complete else none
  | .completeFailed => if c.packet = .pending then some c.completeFailed else none
  | .dequeue => if c.packet = .queued then some (c.atStage .dequeued) else none
  | .takeFailed => if c.packet = .queuedFailed then some c.takeFailed else none
  | .handle stage sz choice => if c.packet = .held stage then c.handle sz stage choice else none

end Call

/-- The life of one operation as a machine. -/
def lifecycle : Machine Call Event where
  init := {}
  step := Call.after

/-! ### One step -/

/-- The program points before the kernel call. -/
def SubmitPc.beforeIssue : SubmitPc → Bool
  | .idle | .entered | .allocated | .socketReady | .prepared => true
  | _ => false

/-- The program points after the insert in `currentTasks`, on the successful path. -/
def SubmitPc.afterInsert : SubmitPc → Bool
  | .posted | .shared | .leaving | .returned none => true
  | _ => false

/-- The submit call returned an exception, or is about to because the insert found no memory. -/
def SubmitPc.failed : SubmitPc → Bool
  | .unwinding | .unwound | .returned (some _) => true
  | _ => false

/-- The program points behind the invocation of the callback, as long as the worker has its
local `task`. -/
def Stage.called : Stage → Bool
  | .callback | .stopStore | .stopWake | .failing | .dropTask _ => true
  | _ => false

/-- The program points at which the worker's local `task` holds a reference. -/
def Stage.hasTask : Stage → Bool
  | .counted | .marked | .callback | .stopStore | .stopWake | .failing | .dropTask _ => true
  | _ => false

/-- Behind the invocation of the callback the worker has its local `task`. -/
theorem Stage.hasTask_of_called {stage : Stage} (h : stage.called = true) :
    stage.hasTask = true := by
  cases stage <;> first | rfl | exact absurd h Bool.false_ne_true

/-- The phases in which a worker found the task in `currentTasks`. -/
def PacketPhase.found : PacketPhase → Bool
  | .held .dequeued | .held .locked | .held (.dropRaw _ false) => false
  | .held _ | .delivered => true
  | _ => false

namespace Call

/-- **What a step of a submit call can do**, one case per program point. -/
inductive Submits (c : Call) : SubmitChoice → Answer → Prop
  | call (kind : AsyncTaskType) (tooBig : Bool) (hpc : c.pc = .idle) :
      Submits c (.call kind tooBig) (.next (c.enter kind tooBig))
  | allocTask (ok : Bool) (hpc : c.pc = .entered) :
      Submits c (.alloc ok) (.next (c.allocTask ok))
  | createSocket (ok : Bool) (hpc : c.pc = .allocated) (hkind : c.kind = .accept) :
      Submits c (.alloc ok) (.next (c.createSocket ok))
  | allocOverlapped (ok : Bool) (hpc : c.pc = .allocated ∨ c.pc = .socketReady)
      (hkind : c.pc = .allocated → c.kind ≠ .accept) :
      Submits c (.alloc ok) (.next (c.allocOverlapped ok))
  | socketFails (hpc : c.pc = .allocated) : Submits c .socketFails (.aborts .createSocket)
  | issue (result : KernelResult) (hpc : c.pc = .prepared) :
      Submits c (.issue result) (.next (c.issue result))
  | accept (ok : Bool) (result : KernelResult) (hpc : c.pc = .issued result)
      (hacc : countsAsAccepted c.kind result = true) :
      Submits c (.alloc ok) (.next { c with socketOwned := false, pc := .accepted })
  | refuse (ok : Bool) (code : ℕ) (e : ExceptionPointer) (hpc : c.pc = .issued (.error code))
      (hacc : countsAsAccepted c.kind (.error code) = false)
      (he : wsaLastErrorToExcept ok code = some e) :
      Submits c (.alloc ok) (.next (c.fail e .kernelCall))
  | unlisted (ok : Bool) (code : ℕ) (hpc : c.pc = .issued (.error code))
      (he : wsaLastErrorToExcept ok code = none) :
      Submits c (.alloc ok) (.aborts (.unlistedError code))
  | insert (hpc : c.pc = .accepted) :
      Submits c (.alloc true)
        (.registers { c.touch AsyncTask.incRef with pc := .posted, registered := true })
  | insertFails (hpc : c.pc = .accepted) :
      Submits c (.alloc false) (.next { c with pc := .unwinding })
  | unwind (hpc : c.pc = .unwinding) : Submits c .go (.next c.unwind)
  | giveUp (hpc : c.pc = .unwound) : Submits c .go (.next c.giveUp)
  | share (hpc : c.pc = .posted) : Submits c .go (.next c.share)
  | assignOut (hpc : c.pc = .shared) : Submits c .go (.next c.assignOut)
  | leave (hpc : c.pc = .leaving) : Submits c .go (.next c.leave)
  | release (hpc : c.pc = .returned none) (href : c.callerRef = true) :
      Submits c .release
        (.next { c with task := c.task.decRef, callerRef := false, released := true })

/-- The test of the kernel's answer is a step of the submit call. -/
theorem submits_checkResult {c : Call} {ok : Bool} {result : KernelResult}
    (hpc : c.pc = .issued result) : Submits c (.alloc ok) (c.checkResult ok result) := by
  unfold checkResult
  by_cases hacc : countsAsAccepted c.kind result = true
  · rw [if_pos hacc]
    exact .accept ok result hpc hacc
  · rw [if_neg hacc]
    cases result with
    | success => exact absurd rfl hacc
    | error code =>
        cases he : wsaLastErrorToExcept ok code with
        | none =>
            simp only [he]
            exact .unlisted ok code hpc he
        | some e =>
            simp only [he]
            exact .refuse ok code e hpc (by simpa using hacc) he

/-- `Submits` says all a step of a submit call can do. -/
theorem submits_of_submit {c : Call} {choice : SubmitChoice} {a : Answer}
    (h : c.submit choice = some a) : Submits c choice a := by
  cases choice with
  | call kind tooBig =>
      simp only [submit, Option.ite_none_right_eq_some, Option.some.injEq] at h
      obtain ⟨hpc, rfl⟩ := h
      exact .call kind tooBig hpc
  | alloc ok =>
      simp only [submit] at h
      split at h
      · rename_i hpc
        obtain rfl := Option.some.inj h
        exact .allocTask ok hpc
      · rename_i hpc
        split at h
        · rename_i hkind
          obtain rfl := Option.some.inj h
          exact .createSocket ok hpc hkind
        · rename_i hkind
          obtain rfl := Option.some.inj h
          exact .allocOverlapped ok (.inl hpc) fun _ => hkind
      · rename_i hpc
        obtain rfl := Option.some.inj h
        exact .allocOverlapped ok (.inr hpc) fun ha => by rw [hpc] at ha; cases ha
      · rename_i result hpc
        obtain rfl := Option.some.inj h
        exact submits_checkResult hpc
      · rename_i hpc
        obtain rfl := Option.some.inj h
        cases ok with
        | true => exact .insert hpc
        | false => exact .insertFails hpc
      · cases h
  | socketFails =>
      simp only [submit, Option.ite_none_right_eq_some, Option.some.injEq] at h
      obtain ⟨⟨hpc, -⟩, rfl⟩ := h
      exact .socketFails hpc
  | issue result =>
      simp only [submit, Option.ite_none_right_eq_some, Option.some.injEq] at h
      obtain ⟨hpc, rfl⟩ := h
      exact .issue result hpc
  | go =>
      simp only [submit] at h
      split at h
      · rename_i hpc
        obtain rfl := Option.some.inj h
        exact .unwind hpc
      · rename_i hpc
        obtain rfl := Option.some.inj h
        exact .giveUp hpc
      · rename_i hpc
        obtain rfl := Option.some.inj h
        exact .share hpc
      · rename_i hpc
        obtain rfl := Option.some.inj h
        exact .assignOut hpc
      · rename_i hpc
        obtain rfl := Option.some.inj h
        exact .leave hpc
      · cases h
  | release =>
      simp only [submit, Option.ite_none_right_eq_some, Option.some.injEq] at h
      obtain ⟨⟨hpc, href⟩, rfl⟩ := h
      exact .release hpc href

/-- **What can happen to an operation**, one case per step of its submit call, of the
kernel and of the worker with its packet in hand. -/
inductive Steps (c : Call) : Event → Call → Prop
  | submit {choice : SubmitChoice} {c' : Call} (h : Submits c choice (.next c')) :
      Steps c (.submit choice) c'
  | register {choice : SubmitChoice} {c' : Call} (h : Submits c choice (.registers c')) :
      Steps c (.submit choice) c'
  | complete (hp : c.packet = .pending) : Steps c .complete c.complete
  | completeFailed (hp : c.packet = .pending) : Steps c .completeFailed c.completeFailed
  | dequeue (hp : c.packet = .queued) : Steps c .dequeue (c.atStage .dequeued)
  | takeFailed (hp : c.packet = .queuedFailed) : Steps c .takeFailed c.takeFailed
  | holdRaw (sz : ℕ) (hp : c.packet = .held .dequeued) :
      Steps c (.handle .dequeued sz .go) c.holdRaw
  | hit (sz : ℕ) (hp : c.packet = .held .locked) (hreg : c.registered = true) :
      Steps c (.handle .locked sz .go) c.remove
  | miss (sz : ℕ) (hp : c.packet = .held .locked) (hreg : c.registered = false) :
      Steps c (.handle .locked sz .go) (c.atStage (.dropRaw false false))
  | dropOverlappedRef (sz : ℕ) (hp : c.packet = .held .removed) :
      Steps c (.handle .removed sz .go) c.dropOverlappedRef
  | addTransferred (sz : ℕ) (hp : c.packet = .held .unlocked) :
      Steps c (.handle .unlocked sz .go) (c.addTransferred sz)
  | setDone (sz : ℕ) (hp : c.packet = .held .counted) :
      Steps c (.handle .counted sz .go) c.setDone
  | invoke (sz : ℕ) (hp : c.packet = .held .marked) : Steps c (.handle .marked sz .go) c.invoke
  | stays {stage stage' : Stage} (sz : ℕ) {choice : WorkerChoice} (hp : c.packet = .held stage)
      (hin : stage.called = true) (hin' : stage'.called = true) :
      Steps c (.handle stage sz choice) (c.atStage stage')
  | dropTask (sz : ℕ) (exits : Bool) (hp : c.packet = .held (.dropTask exits)) :
      Steps c (.handle (.dropTask exits) sz .go) (c.dropTask exits)
  | dropRaw (sz : ℕ) (exits hit : Bool) (hp : c.packet = .held (.dropRaw exits hit)) :
      Steps c (.handle (.dropRaw exits hit) sz .go) (c.dropRaw hit)

/-- The worker with the packet in hand does one of the steps of `Steps`. -/
theorem steps_of_handle {c c' : Call} {stage : Stage} {sz : ℕ} {choice : WorkerChoice}
    (hp : c.packet = .held stage) (h : c.handle sz stage choice = some c') :
    Steps c (.handle stage sz choice) c' := by
  unfold handle at h
  split at h
  · obtain rfl := Option.some.inj h
    exact .holdRaw sz hp
  · obtain rfl := Option.some.inj h
    by_cases hreg : c.registered = true
    · rw [if_pos hreg]
      exact .hit sz hp hreg
    · rw [if_neg hreg]
      exact .miss sz hp (by simpa using hreg)
  · obtain rfl := Option.some.inj h
    exact .dropOverlappedRef sz hp
  · obtain rfl := Option.some.inj h
    exact .addTransferred sz hp
  · obtain rfl := Option.some.inj h
    exact .setDone sz hp
  · obtain rfl := Option.some.inj h
    exact .invoke sz hp
  · obtain rfl := Option.some.inj h
    exact .stays sz hp rfl rfl
  · obtain rfl := Option.some.inj h
    exact .stays sz hp rfl rfl
  · obtain rfl := Option.some.inj h
    exact .stays sz hp rfl rfl
  · obtain rfl := Option.some.inj h
    refine .stays sz hp rfl ?_
    split <;> rfl
  · obtain rfl := Option.some.inj h
    exact .stays sz hp rfl rfl
  · obtain rfl := Option.some.inj h
    exact .dropTask sz _ hp
  · obtain rfl := Option.some.inj h
    exact .dropRaw sz _ _ hp
  · cases h

/-- `Steps` says all that can happen to an operation. -/
theorem steps_of_after {c c' : Call} {ev : Event} (h : c.after ev = some c') :
    Steps c ev c' := by
  cases ev with
  | submit choice =>
      simp only [after, submitted] at h
      split at h
      · rename_i a hsub
        obtain rfl := Option.some.inj h
        exact .submit (submits_of_submit hsub)
      · rename_i a hsub
        obtain rfl := Option.some.inj h
        exact .register (submits_of_submit hsub)
      · cases h
  | complete =>
      obtain ⟨hp, rfl⟩ := Option.ite_none_right_eq_some.mp h |>.imp_right Option.some.inj
      exact .complete hp
  | completeFailed =>
      obtain ⟨hp, rfl⟩ := Option.ite_none_right_eq_some.mp h |>.imp_right Option.some.inj
      exact .completeFailed hp
  | dequeue =>
      obtain ⟨hp, rfl⟩ := Option.ite_none_right_eq_some.mp h |>.imp_right Option.some.inj
      exact .dequeue hp
  | takeFailed =>
      obtain ⟨hp, rfl⟩ := Option.ite_none_right_eq_some.mp h |>.imp_right Option.some.inj
      exact .takeFailed hp
  | handle stage sz choice =>
      obtain ⟨hp, hh⟩ := Option.ite_none_right_eq_some.mp h
      exact steps_of_handle hp hh

end Call

/-! ### What the program points say about each other -/

/-- What holds of a call in every run: the packet exists only once the kernel call was
made, the kernel holds the operation exactly while the packet is pending, and the task is
in `currentTasks` only after the insert. -/
structure Call.Sound (c : Call) : Prop where
  notIssued : c.pc.beforeIssue = true → c.packet = .notIssued
  pending : c.kernelPending = true ↔ c.packet = .pending
  inserted : c.registered = true → c.pc.afterInsert = true
  found : c.packet.found = true → c.pc.afterInsert = true

namespace Call

/-- Dropping the owner touches the task and nothing else. -/
theorem dropOwner_eq (c : Call) :
    c.dropOwner = { c with task := c.dropOwner.task, fault := c.dropOwner.fault } := by
  unfold dropOwner touch
  split <;> rfl

/-- What the local `task` leaves behind does not depend on the socket. -/
theorem dropOwner_dropSocket (c : Call) :
    c.dropSocket.dropOwner =
      { c.dropSocket with task := c.dropOwner.task, fault := c.dropOwner.fault } := by
  rw [dropSocket]
  split
  · unfold dropOwner touch
    split <;> rfl
  · exact dropOwner_eq c

/-- **The end of the scope** drops the local owners of the task and of the socket. -/
theorem leaveScope_eq (c : Call) :
    c.leaveScope =
      { c with
        task := c.dropOwner.task
        fault := c.dropOwner.fault
        socketOwned := false
        socketDisposed := c.socketDisposed + c.socketOwned.toNat } := by
  rw [leaveScope, dropOwner_dropSocket, dropSocket]
  cases hs : c.socketOwned <;> simp [hs]

/-- **A failing exit** ends the scope and returns the exception. -/
theorem fail_eq (c : Call) (e : ExceptionPointer) (p : FailPoint) :
    c.fail e p =
      { c with
        task := c.dropOwner.task
        fault := c.dropOwner.fault
        socketOwned := false
        socketDisposed := c.socketDisposed + c.socketOwned.toNat
        pc := .returned e
        failPoint := some p } := by
  rw [fail, leaveScope_eq]

/-- **The failing exit behind `postAsyncTask`** ends the scope too. -/
theorem unwind_eq (c : Call) :
    c.unwind =
      { c with
        task := c.dropOwner.task
        fault := c.dropOwner.fault
        socketOwned := false
        socketDisposed := c.socketDisposed + c.socketOwned.toNat
        pc := .unwound } := by
  rw [unwind, leaveScope_eq]

/-- The return drops the local `task` of `readAsync`, and nothing else. -/
theorem leave_eq (c : Call) :
    c.leave =
      { c with
        task := if c.kind = .read then c.task.decRef else c.task
        fault := if c.kind = .read then (c.touch AsyncTask.decRef).fault else c.fault
        pc := .returned none } := by
  rw [leave]
  split <;> rfl

/-- A step of the submitting thread that only moves it keeps a call sound. -/
theorem Sound.move {c c' : Call} (h : c.Sound)
    (hbefore : c'.pc.beforeIssue = true → c.pc.beforeIssue = true)
    (hafter : c.pc.afterInsert = true → c'.pc.afterInsert = true)
    (hpending : c'.kernelPending = c.kernelPending) (hpacket : c'.packet = c.packet)
    (hreg : c'.registered = c.registered) : c'.Sound where
  notIssued := fun hb => hpacket.trans (h.notIssued (hbefore hb))
  pending := by rw [hpending, hpacket]; exact h.pending
  inserted := fun hr => hafter (h.inserted (hreg ▸ hr))
  found := fun hf => hafter (h.found (hpacket ▸ hf))

/-- A step of the worker with the packet in hand keeps a call sound. -/
theorem Sound.atPacket {c c' : Call} (h : c.Sound) (hpc : c'.pc = c.pc)
    (hpending : c'.kernelPending = c.kernelPending)
    (hreg : c'.registered = true → c.registered = true)
    (hold : c.packet ≠ .notIssued ∧ c.packet ≠ .pending)
    (hnew : c'.packet ≠ .pending)
    (hfound : c'.packet.found = true → c.packet.found = true ∨ c.registered = true) :
    c'.Sound where
  notIssued := fun hb => absurd (h.notIssued (hpc ▸ hb)) hold.1
  pending := by
    rw [hpending, h.pending]
    exact ⟨fun hp => absurd hp hold.2, fun hp => absurd hp hnew⟩
  inserted := fun hr => hpc ▸ h.inserted (hreg hr)
  found := fun hf => by
    rw [hpc]
    exact (hfound hf).elim h.found h.inserted

/-- A step of the submit call keeps a call sound. -/
theorem Sound.submit {c c' : Call} {choice : SubmitChoice} (h : c.Sound)
    (hstep : Submits c choice (.next c')) : c'.Sound := by
  cases hstep with
  | call kind tooBig hpc =>
      have hbefore : c.pc.beforeIssue = true := by rw [hpc]; rfl
      have hafter : c.pc.afterInsert ≠ true := by rw [hpc]; exact Bool.false_ne_true
      refine h.move (fun _ => hbefore) (fun ha => absurd ha hafter) ?_ ?_ ?_ <;>
        (unfold enter; split <;> simp [fail_eq])
  | allocTask ok hpc =>
      have hbefore : c.pc.beforeIssue = true := by rw [hpc]; rfl
      have hafter : c.pc.afterInsert ≠ true := by rw [hpc]; exact Bool.false_ne_true
      refine h.move (fun _ => hbefore) (fun ha => absurd ha hafter) ?_ ?_ ?_ <;>
        (unfold allocTask; split <;> simp [fail_eq])
  | createSocket ok hpc hkind =>
      have hbefore : c.pc.beforeIssue = true := by rw [hpc]; rfl
      have hafter : c.pc.afterInsert ≠ true := by rw [hpc]; exact Bool.false_ne_true
      refine h.move (fun _ => hbefore) (fun ha => absurd ha hafter) ?_ ?_ ?_ <;>
        (unfold createSocket; split <;> simp [fail_eq])
  | allocOverlapped ok hpc =>
      have hbefore : c.pc.beforeIssue = true := by rcases hpc with hpc | hpc <;> rw [hpc] <;> rfl
      have hafter : c.pc.afterInsert ≠ true := by
        rcases hpc with hpc | hpc <;> rw [hpc] <;> exact Bool.false_ne_true
      refine h.move (fun _ => hbefore) (fun ha => absurd ha hafter) ?_ ?_ ?_ <;>
        (unfold allocOverlapped; split <;> simp [fail_eq, touch])
  | issue result hpc =>
      have hnot : c.packet = .notIssued := h.notIssued (by rw [hpc]; rfl)
      have hafter : c.pc.afterInsert ≠ true := by rw [hpc]; exact Bool.false_ne_true
      rw [Call.issue]
      split
      · exact ⟨fun hb => absurd hb Bool.false_ne_true, by simp,
          fun hr => absurd (h.inserted hr) hafter, fun hf => absurd hf Bool.false_ne_true⟩
      · exact ⟨fun _ => hnot, h.pending, fun hr => absurd (h.inserted hr) hafter,
          fun hf => absurd (h.found hf) hafter⟩
  | accept ok result hpc hacc =>
      refine h.move (fun hb => absurd hb Bool.false_ne_true) (fun ha => ?_) rfl rfl rfl
      rw [hpc] at ha
      exact absurd ha Bool.false_ne_true
  | refuse ok code e hpc hacc he =>
      refine h.move (fun hb => ?_) (fun ha => ?_) ?_ ?_ ?_
      · simp [fail_eq, SubmitPc.beforeIssue] at hb
      · rw [hpc] at ha
        exact absurd ha Bool.false_ne_true
      all_goals simp [fail_eq]
  | insertFails hpc | giveUp hpc =>
      refine h.move (fun hb => absurd hb Bool.false_ne_true) (fun ha => ?_) rfl rfl rfl
      rw [hpc] at ha
      exact absurd ha Bool.false_ne_true
  | unwind hpc =>
      rw [unwind_eq]
      refine h.move (fun hb => absurd hb Bool.false_ne_true) (fun ha => ?_) rfl rfl rfl
      rw [hpc] at ha
      exact absurd ha Bool.false_ne_true
  | share hpc =>
      exact h.move (fun hb => absurd hb Bool.false_ne_true) (fun _ => rfl) rfl rfl rfl
  | assignOut hpc =>
      exact h.move (fun hb => absurd hb Bool.false_ne_true) (fun _ => rfl) rfl rfl rfl
  | leave hpc =>
      rw [leave_eq]
      exact h.move (fun hb => absurd hb Bool.false_ne_true) (fun _ => rfl) rfl rfl rfl
  | release hpc href => exact h.move id id rfl rfl rfl

/-- A call that has not been made is sound. -/
theorem sound_init : ({} : Call).Sound :=
  ⟨fun _ => rfl, by decide, fun hr => absurd hr Bool.false_ne_true,
    fun hf => absurd hf Bool.false_ne_true⟩

/-- **The step lemma of `Sound`**: every step keeps it. -/
theorem Sound.step {c c' : Call} {ev : Event} (h : c.Sound) (hstep : Steps c ev c') :
    c'.Sound := by
  cases hstep with
  | submit hsub => exact h.submit hsub
  | register hsub =>
      cases hsub with
      | insert hpc =>
          exact ⟨fun hb => absurd hb Bool.false_ne_true, h.pending, fun _ => rfl, fun _ => rfl⟩
  | complete hp =>
      have hpc : c.pc.beforeIssue ≠ true := fun hb => by simp [h.notIssued hb] at hp
      exact ⟨fun hb => absurd hb hpc, by simp [complete], h.inserted,
        fun hf => absurd hf Bool.false_ne_true⟩
  | completeFailed hp =>
      have hpc : c.pc.beforeIssue ≠ true := fun hb => by simp [h.notIssued hb] at hp
      exact ⟨fun hb => absurd hb hpc, by simp [completeFailed], h.inserted,
        fun hf => absurd hf Bool.false_ne_true⟩
  | dequeue hp =>
      refine h.atPacket rfl rfl id ?_ ?_ ?_ <;> simp [hp, atStage, PacketPhase.found]
  | takeFailed hp =>
      refine h.atPacket rfl rfl id ?_ ?_ ?_ <;> simp [hp, takeFailed, PacketPhase.found]
  | holdRaw sz hp =>
      refine h.atPacket rfl rfl id ?_ ?_ ?_ <;> simp [hp, Call.holdRaw, PacketPhase.found]
  | hit sz hp hreg =>
      refine h.atPacket rfl rfl (fun _ => hreg) ?_ ?_ (fun _ => .inr hreg) <;> simp [hp, remove]
  | miss sz hp hreg =>
      refine h.atPacket rfl rfl id ?_ ?_ ?_ <;> simp [hp, atStage, PacketPhase.found]
  | dropOverlappedRef sz hp =>
      refine h.atPacket rfl rfl id ?_ ?_ ?_ <;>
        simp [hp, Call.dropOverlappedRef, PacketPhase.found]
  | addTransferred sz hp =>
      refine h.atPacket rfl rfl id ?_ ?_ ?_ <;> simp [hp, Call.addTransferred, PacketPhase.found]
  | setDone sz hp =>
      refine h.atPacket rfl rfl id ?_ ?_ ?_ <;> simp [hp, Call.setDone, PacketPhase.found]
  | invoke sz hp =>
      refine h.atPacket rfl rfl id ?_ ?_ ?_ <;> simp [hp, Call.invoke, PacketPhase.found]
  | @stays stage stage' sz choice hp hin hin' =>
      refine h.atPacket rfl rfl id ?_ ?_ (fun _ => .inl ?_)
      · simp [hp]
      · simp [atStage]
      · rw [hp]
        cases stage <;> first | rfl | exact absurd hin Bool.false_ne_true
  | dropTask sz exits hp =>
      refine h.atPacket rfl rfl id ?_ ?_ ?_ <;> simp [hp, Call.dropTask, PacketPhase.found]
  | dropRaw sz exits hit hp =>
      cases hit <;> refine h.atPacket rfl rfl id ?_ ?_ ?_ <;>
        simp [hp, Call.dropRaw, PacketPhase.found]

end Call

/-! ### What a step of the submit call leaves alone -/

/-- What a step of a submit call does not change, and how far it comes: the packet is as
it was unless the kernel call makes it, and a call comes to a program point after the
insert only from one, or fails. -/
structure Call.SubmitFrame (c c' : Call) : Prop where
  registered : c'.registered = c.registered
  callbacks : c'.callbacks = c.callbacks
  packet : c'.packet = c.packet ∨ c.packet = .notIssued ∧ c'.packet = .pending
  before : c.pc.afterInsert = false → c'.pc.afterInsert = false ∨ c'.failPoint ≠ none
  after : c.pc.afterInsert = true → c'.pc.afterInsert = true ∧ c'.failPoint = c.failPoint

/-- A packet that was made is left alone. -/
theorem Call.SubmitFrame.packet_eq {c c' : Call} (h : SubmitFrame c c')
    (hmade : c.packet ≠ .notIssued) : c'.packet = c.packet := by
  rcases h.packet with hsame | ⟨hold, -⟩
  · exact hsame
  · exact absurd hold hmade

namespace Call

/-- A failing exit before the insert is framed. -/
theorem submitFrame_fail {c : Call} (e : ExceptionPointer) (p : FailPoint)
    (hpc : c.pc.afterInsert = false) : SubmitFrame c (c.fail e p) where
  registered := by simp [fail_eq]
  callbacks := by simp [fail_eq]
  packet := .inl (by simp [fail_eq])
  before := fun _ => .inr (by simp [fail_eq])
  after := fun ha => absurd (hpc.symm.trans ha) Bool.false_ne_true

/-- A step from one program point before the insert to another is framed. -/
theorem submitFrame_before {c c' : Call} (hpc : c.pc.afterInsert = false)
    (hpc' : c'.pc.afterInsert = false) (hreg : c'.registered = c.registered)
    (hcallbacks : c'.callbacks = c.callbacks) (hpacket : c'.packet = c.packet) :
    SubmitFrame c c' where
  registered := hreg
  callbacks := hcallbacks
  packet := .inl hpacket
  before := fun _ => .inl hpc'
  after := fun ha => absurd (hpc.symm.trans ha) Bool.false_ne_true

/-- A step from one program point after the insert to another is framed. -/
theorem submitFrame_after {c c' : Call} (hpc : c.pc.afterInsert = true)
    (hpc' : c'.pc.afterInsert = true) (hfail : c'.failPoint = c.failPoint)
    (hreg : c'.registered = c.registered) (hcallbacks : c'.callbacks = c.callbacks)
    (hpacket : c'.packet = c.packet) : SubmitFrame c c' where
  registered := hreg
  callbacks := hcallbacks
  packet := .inl hpacket
  before := fun hb => absurd (hb.symm.trans hpc) Bool.false_ne_true
  after := fun _ => ⟨hpc', hfail⟩

/-- **Every step of a submit call** other than the insert is framed. -/
theorem submitFrame_of_submits {c c' : Call} {choice : SubmitChoice} (hs : c.Sound)
    (hstep : Submits c choice (.next c')) : SubmitFrame c c' := by
  cases hstep with
  | call kind tooBig hpc =>
      have hbefore : c.pc.afterInsert = false := by rw [hpc]; rfl
      rw [enter]
      split
      · obtain ⟨h₁, h₂, h₃, h₄, h₅⟩ := submitFrame_fail (c := { c with kind := kind })
          (some .bufferIsTooBig) .bufferSize hbefore
        exact ⟨h₁, h₂, h₃, h₄, h₅⟩
      · exact submitFrame_before hbefore rfl rfl rfl rfl
  | allocTask ok hpc =>
      have hbefore : c.pc.afterInsert = false := by rw [hpc]; rfl
      rw [allocTask]
      split
      · exact submitFrame_before hbefore rfl rfl rfl rfl
      · exact submitFrame_fail _ _ hbefore
  | createSocket ok hpc hkind =>
      have hbefore : c.pc.afterInsert = false := by rw [hpc]; rfl
      rw [createSocket]
      split
      · exact submitFrame_before hbefore rfl rfl rfl rfl
      · exact submitFrame_fail _ _ hbefore
  | allocOverlapped ok hpc =>
      have hbefore : c.pc.afterInsert = false := by rcases hpc with hpc | hpc <;> rw [hpc] <;> rfl
      rw [allocOverlapped]
      split
      · exact submitFrame_before hbefore rfl rfl rfl rfl
      · exact submitFrame_fail _ _ hbefore
  | issue result hpc =>
      have hbefore : c.pc.afterInsert = false := by rw [hpc]; rfl
      have hnot : c.packet = .notIssued := hs.notIssued (by rw [hpc]; rfl)
      rw [Call.issue]
      split
      · exact ⟨rfl, rfl, .inr ⟨hnot, rfl⟩, fun _ => .inl rfl,
          fun ha => absurd (hbefore.symm.trans ha) Bool.false_ne_true⟩
      · exact submitFrame_before hbefore rfl rfl rfl rfl
  | accept ok result hpc hacc =>
      exact submitFrame_before (by rw [hpc]; rfl) rfl rfl rfl rfl
  | refuse ok code e hpc hacc he => exact submitFrame_fail _ _ (by rw [hpc]; rfl)
  | insertFails hpc => exact submitFrame_before (by rw [hpc]; rfl) rfl rfl rfl rfl
  | unwind hpc =>
      rw [unwind_eq]
      exact submitFrame_before (by rw [hpc]; rfl) rfl rfl rfl rfl
  | giveUp hpc =>
      exact ⟨rfl, rfl, .inl rfl, fun _ => .inr (by simp [giveUp]),
        fun ha => absurd ha (by rw [hpc]; exact Bool.false_ne_true)⟩
  | share hpc => exact submitFrame_after (by rw [hpc]; rfl) rfl rfl rfl rfl rfl
  | assignOut hpc => exact submitFrame_after (by rw [hpc]; rfl) rfl rfl rfl rfl rfl
  | leave hpc =>
      rw [leave_eq]
      exact submitFrame_after (by rw [hpc]; rfl) rfl rfl rfl rfl rfl
  | release hpc href =>
      exact submitFrame_after (by rw [hpc]; rfl) (by rw [hpc]; rfl) rfl rfl rfl rfl

/-- A call that returned an exception makes no more steps. -/
theorem submits_pc_ne {c : Call} {choice : SubmitChoice} {a : Answer}
    (hstep : Submits c choice a) (e : Exception) : c.pc ≠ .returned (some e) := by
  cases hstep with
  | allocOverlapped ok hpc => rcases hpc with hpc | hpc <;> simp [hpc]
  | _ => simp [*]

/-- A call that failed does not recover. -/
theorem failed_of_submits {c c' : Call} {choice : SubmitChoice} (h : c.pc.failed = true)
    (hstep : Submits c choice (.next c')) : c'.pc.failed = true := by
  cases hstep with
  | unwind hpc | giveUp hpc => rfl
  | allocOverlapped ok hpc =>
      rcases hpc with hpc | hpc <;> rw [hpc] at h <;> exact absurd h Bool.false_ne_true
  | call kind tooBig hpc | allocTask ok hpc | createSocket ok hpc hkind | issue result hpc
  | accept ok result hpc hacc | refuse ok code e hpc hacc he | insertFails hpc | share hpc
  | assignOut hpc | leave hpc | release hpc href =>
      rw [hpc] at h
      exact absurd h Bool.false_ne_true

end Call

/-! ### What a failing exit says -/

/-- What holds in every run of a call that failed, or is about to: a call the kernel
refused has no packet, and neither has one that failed before the insert; the null pointer
comes out of a failing exit only where an error code was translated. -/
structure Call.Exits (c : Call) : Prop where
  refused : ∀ result, c.pc = .issued result → kernelAccepts result = false →
    c.packet = .notIssued
  failed : ∀ p, c.failPoint = some p → c.registered = false ∧
    ∃ e, c.pc = .returned e ∧ (p ≠ .kernelCall → e ≠ none) ∧
      (p ≠ .postAsyncTask → c.packet = .notIssued)
  exception : ∀ e, c.pc = .returned (some e) → ∃ p, c.failPoint = some p

namespace Call

/-- A call at a program point before the return has not failed. -/
theorem Exits.failPoint_eq_none {c : Call} (h : c.Exits) (hpc : ∀ e, c.pc ≠ .returned e) :
    c.failPoint = none := by
  cases hf : c.failPoint with
  | none => rfl
  | some p =>
      obtain ⟨-, e, he, -⟩ := h.failed p hf
      exact absurd he (hpc e)

/-- The kernel refused an operation that does not count as accepted, unless translating
its code ends the process. -/
theorem not_kernelAccepts {ok : Bool} {code : ℕ} {e : ExceptionPointer}
    (he : wsaLastErrorToExcept ok code = some e) : kernelAccepts (.error code) = false := by
  by_contra hne
  have hcode : code = WSA_IO_PENDING := by simpa [kernelAccepts] using hne
  rw [hcode, wsaLastErrorToExcept_io_pending] at he
  cases he

/-- A failing exit leaves a call of which `Exits` holds. -/
theorem exits_fail {c : Call} {e : ExceptionPointer} {p : FailPoint}
    (hreg : c.registered = false) (he : p ≠ .kernelCall → e ≠ none)
    (hpacket : p ≠ .postAsyncTask → c.packet = .notIssued) : (c.fail e p).Exits where
  refused := fun result hpc => by simp [fail_eq] at hpc
  failed := fun q hq => by
    obtain rfl : p = q := by simpa [fail_eq] using hq
    exact ⟨by simpa [fail_eq] using hreg, e, by simp [fail_eq], he,
      fun hne => by simpa [fail_eq] using hpacket hne⟩
  exception := fun e' _ => ⟨p, by simp [fail_eq]⟩

/-- A call that stays before the return, and does not come to the answer of the kernel,
has not failed. -/
theorem exits_running {c : Call} (hfail : c.failPoint = none)
    (hpc : ∀ e, c.pc ≠ .returned (some e)) (hissued : ∀ result, c.pc ≠ .issued result) :
    c.Exits where
  refused := fun result h => absurd h (hissued result)
  failed := fun p hp => by rw [hfail] at hp; cases hp
  exception := fun e h => absurd h (hpc e)

/-- The step lemma of `Exits` for the submit call. -/
theorem Exits.submit {c c' : Call} {choice : SubmitChoice} (hs : c.Sound) (h : c.Exits)
    (hstep : Submits c choice (.next c')) : c'.Exits := by
  have hunreg : c.pc.afterInsert = false → c.registered = false := by
    intro hpc
    by_contra hne
    rw [hs.inserted (by simpa using hne)] at hpc
    exact absurd hpc (by decide)
  cases hstep with
  | call kind tooBig hpc =>
      have hfail : c.failPoint = none := h.failPoint_eq_none (by simp [hpc])
      rw [enter]
      split
      · exact exits_fail (hunreg (by rw [hpc]; rfl)) (by simp)
          (fun _ => hs.notIssued (by rw [hpc]; rfl))
      · exact exits_running hfail (by simp) (by simp)
  | allocTask ok hpc =>
      have hfail : c.failPoint = none := h.failPoint_eq_none (by simp [hpc])
      rw [allocTask]
      split
      · exact exits_running hfail (by simp) (by simp)
      · exact exits_fail (hunreg (by rw [hpc]; rfl)) (by simp)
          (fun _ => hs.notIssued (by rw [hpc]; rfl))
  | createSocket ok hpc hkind =>
      have hfail : c.failPoint = none := h.failPoint_eq_none (by simp [hpc])
      rw [createSocket]
      split
      · exact exits_running hfail (by simp) (by simp)
      · exact exits_fail (hunreg (by rw [hpc]; rfl)) (by simp)
          (fun _ => hs.notIssued (by rw [hpc]; rfl))
  | allocOverlapped ok hpc =>
      have hfail : c.failPoint = none :=
        h.failPoint_eq_none (by rcases hpc with hpc | hpc <;> simp [hpc])
      have hbefore : c.pc.beforeIssue = true := by rcases hpc with hpc | hpc <;> rw [hpc] <;> rfl
      have hafter : c.pc.afterInsert = false := by rcases hpc with hpc | hpc <;> rw [hpc] <;> rfl
      rw [allocOverlapped]
      split
      · exact exits_running hfail (by simp) (by simp)
      · exact exits_fail (hunreg hafter) (by simp) (fun _ => hs.notIssued hbefore)
  | issue result hpc =>
      have hfail : c.failPoint = none := h.failPoint_eq_none (by simp [hpc])
      have hnot : c.packet = .notIssued := hs.notIssued (by rw [hpc]; rfl)
      rw [Call.issue]
      split
      · rename_i hacc
        refine ⟨fun result' hpc' hr => ?_, fun p hp => ?_, fun e he => by simp at he⟩
        · obtain rfl : result = result' := by simpa using hpc'
          exact absurd (hacc.symm.trans hr) (by decide)
        · exact absurd (hfail.symm.trans hp) (by simp)
      · refine ⟨fun _ _ _ => hnot, fun p hp => ?_, fun e he => by simp at he⟩
        exact absurd (hfail.symm.trans hp) (by simp)
  | accept ok result hpc hacc =>
      exact exits_running (h.failPoint_eq_none (by simp [hpc])) (by simp) (by simp)
  | refuse ok code e hpc hacc he =>
      exact exits_fail (hunreg (by rw [hpc]; rfl)) (fun hne => absurd rfl hne)
        (fun _ => h.refused _ hpc (not_kernelAccepts he))
  | insertFails hpc =>
      exact exits_running (h.failPoint_eq_none (by simp [hpc])) (by simp) (by simp)
  | unwind hpc =>
      rw [unwind_eq]
      exact exits_running (h.failPoint_eq_none (by simp [hpc])) (by simp) (by simp)
  | giveUp hpc =>
      refine ⟨fun result hr => by simp [Call.giveUp] at hr, fun p hp => ?_, fun e _ => ⟨_, rfl⟩⟩
      obtain rfl : FailPoint.postAsyncTask = p := Option.some.inj hp
      exact ⟨hunreg (by rw [hpc]; rfl), _, rfl, fun _ => Option.some_ne_none _,
        fun hne => absurd rfl hne⟩
  | share hpc =>
      exact exits_running (h.failPoint_eq_none (by simp [hpc])) (by simp [Call.share])
        (by simp [Call.share])
  | assignOut hpc =>
      exact exits_running (h.failPoint_eq_none (by simp [hpc])) (by simp [Call.assignOut])
        (by simp [Call.assignOut])
  | leave hpc =>
      exact exits_running (by simpa [leave_eq] using h.failPoint_eq_none (by simp [hpc]))
        (by simp [leave_eq]) (by simp [leave_eq])
  | release hpc href => exact ⟨h.refused, h.failed, h.exception⟩

/-- A step of the kernel or of a worker keeps `Exits`: it moves only a packet that exists,
and the worker only takes the task out of the task set. -/
theorem Exits.of_eq {c c' : Call} (h : c.Exits) (hpc : c'.pc = c.pc)
    (hfail : c'.failPoint = c.failPoint) (hreg : c'.registered = true → c.registered = true)
    (hissued : c.packet ≠ .notIssued) : c'.Exits where
  refused := fun result hr hk => absurd (h.refused result (hpc ▸ hr) hk) hissued
  failed := fun p hp => by
    obtain ⟨hr, e, he, hnull, hpacket⟩ := h.failed p (hfail ▸ hp)
    refine ⟨?_, e, hpc.trans he, hnull, fun hne => absurd (hpacket hne) hissued⟩
    by_contra hne
    exact absurd ((hreg (by simpa using hne)).symm.trans hr) (by decide)
  exception := fun e he => by
    rw [hfail]
    exact h.exception e (hpc ▸ he)

/-- **The step lemma of `Exits`**: every step keeps it. -/
theorem Exits.step {c c' : Call} {ev : Event} (hs : c.Sound) (h : c.Exits)
    (hstep : Steps c ev c') : c'.Exits := by
  cases hstep with
  | submit hsub => exact h.submit hs hsub
  | register hsub =>
      cases hsub with
      | insert hpc => exact exits_running (h.failPoint_eq_none (by simp [hpc])) (by simp) (by simp)
  | complete hp => exact h.of_eq rfl rfl id (by simp [hp])
  | completeFailed hp => exact h.of_eq rfl rfl id (by simp [hp])
  | dequeue hp => exact h.of_eq rfl rfl id (by simp [hp])
  | takeFailed hp => exact h.of_eq rfl rfl id (by simp [hp])
  | holdRaw sz hp => exact h.of_eq rfl rfl id (by simp [hp])
  | hit sz hp hreg => exact h.of_eq rfl rfl (fun _ => hreg) (by simp [hp])
  | miss sz hp hreg => exact h.of_eq rfl rfl id (by simp [hp])
  | dropOverlappedRef sz hp => exact h.of_eq rfl rfl id (by simp [hp])
  | addTransferred sz hp => exact h.of_eq rfl rfl id (by simp [hp])
  | setDone sz hp => exact h.of_eq rfl rfl id (by simp [hp])
  | invoke sz hp => exact h.of_eq rfl rfl id (by simp [hp])
  | stays sz hp hin hin' => exact h.of_eq rfl rfl id (by simp [hp])
  | dropTask sz exits hp => exact h.of_eq rfl rfl id (by simp [hp])
  | dropRaw sz exits hit hp => exact h.of_eq rfl rfl id (by simp [hp])

end Call

/-- **In every run of an operation** its program points, its packet and its failing exits
say about each other what `Sound` and `Exits` say. -/
theorem lifecycle_sound {H : Call → Event → Prop} {c : Call}
    (h : lifecycle.RunWhere H lifecycle.init c) : c.Sound ∧ c.Exits := by
  refine h.invariant (I := fun c => c.Sound ∧ c.Exits) ⟨Call.sound_init, ?_⟩ ?_
  · exact Call.exits_running rfl (fun _ hpc => by cases hpc) (fun _ hpc => by cases hpc)
  · rintro c ev c' ⟨hs, he⟩ - hstep
    exact ⟨hs.step (Call.steps_of_after hstep), he.step hs (Call.steps_of_after hstep)⟩

end Netknot.Win32
