import Netknot.Win32.Handback

/-!
# What a Failed Submit Call Leaves Behind

A submit call has six failing exits. Until the overlapped block is allocated the local
owners clean up. From then on they do not: the block holds a reference on the task, so
that `readAsync`'s counted owner leaves task and block behind, while the `std::unique_ptr`
of the other two calls destroys the task past its count, and the block's drop destroys it
again. At the exit after the insert found no memory the operation is pending in the kernel
besides, and `acceptAsync` has given up the new socket. There a worker may hold the task of a
`writeAsync`: the deleter then destroys the task once, and the worker once more when it drops
its reference.

## Main results

* `lifecycle_submitting`: the task lives, and the new socket is in the call's hands, until
  a submit call runs its failing exit or the task is in `currentTasks`.
* `lifecycle_spoiled`: what the exit after the insert leaves of the task.
* `nothing_left_iff`: which failing exits leave nothing behind, from the return on.
* `something_left`: a run with one that does.
-/

namespace Netknot.Win32

/-- The exits before the overlapped block is allocated. -/
def FailPoint.beforeBlock : FailPoint → Bool
  | .bufferSize | .allocTask | .createSocket | .allocOverlapped => true
  | .kernelCall | .postAsyncTask => false

/-- The program points at which `acceptAsync` holds the new socket. -/
def SubmitPc.holdsSocket : SubmitPc → Bool
  | .socketReady | .prepared | .issued _ => true
  | _ => false

/-- The program points before `acceptAsync` creates the new socket. -/
def SubmitPc.beforeSocket : SubmitPc → Bool
  | .idle | .entered | .allocated => true
  | _ => false

/-- The submit call is under way, its task is not in `currentTasks` yet, and its owners have not
been dropped. -/
def SubmitPc.submitting : SubmitPc → Bool
  | .idle | .entered | .allocated | .socketReady | .prepared | .issued _ | .accepted
  | .unwinding => true
  | _ => false

/-- What a failed call must have undone, as far as the call itself shows it: the task, if
there is one, was destroyed exactly once and its block released exactly once; the counts of
the caller's buffer and callback are what they were; the socket created for an accept was
disposed of exactly once; and nothing is pending in the kernel on released memory. -/
structure Call.Undone (c : Call) : Prop where
  destroyed : c.task.destroyed = c.task.allocated.toNat
  overlappedReleased : c.task.overlappedReleased = c.task.hasOverlapped.toNat
  bufferRefs : c.task.bufferRefs = 0
  callbackRefs : c.task.callbackRefs = 0
  socketDisposed : c.socketDisposed = c.socketCreated.toNat
  kernelPending : c.kernelPending = true → c.task.destroyed = 0

/-- **Nothing is left behind** by the failed call of operation `o`: all was undone, and the
task is not in `currentTasks`. -/
structure State.NothingLeft {n : ℕ} (s : State n) (o : OpId) : Prop where
  undone : (s.calls o).Undone
  currentTasks : o ∉ s.currentTasks

namespace Call

/-- Until a submit call fails or its task is in `currentTasks`: the task lives, and the new
socket is where the program point says. -/
structure Submitting (c : Call) : Prop where
  alive : c.pc.submitting = true → c.task.destroyed = 0
  noSocket : c.pc.submitting = true → (c.kind = .accept → c.pc.beforeSocket = true) →
    c.socketCreated = false
  created : c.kind = .accept → c.pc.submitting = true → c.pc.beforeSocket = false →
    c.socketCreated = true
  owned : c.pc.submitting = true →
    c.socketOwned = (c.socketCreated && c.pc.holdsSocket)
  disposed : c.pc.submitting = true → c.socketDisposed = 0

/-- A call that is not at a program point of `Submitting` satisfies it. -/
theorem Submitting.of_not {c : Call} (h : c.pc.submitting = false) : c.Submitting where
  alive := fun hs => absurd (h.symm.trans hs) Bool.false_ne_true
  noSocket := fun hs => absurd (h.symm.trans hs) Bool.false_ne_true
  created := fun _ hs => absurd (h.symm.trans hs) Bool.false_ne_true
  owned := fun hs => absurd (h.symm.trans hs) Bool.false_ne_true
  disposed := fun hs => absurd (h.symm.trans hs) Bool.false_ne_true

/-- A failing exit ends `Submitting`. -/
theorem Submitting.fail {c : Call} (e : ExceptionPointer) (p : FailPoint) :
    (c.fail e p).Submitting := by
  rw [fail_eq]
  exact .of_not rfl

/-- A step between program points of `Submitting` that leaves the socket alone. -/
theorem Submitting.move {c c' : Call} (h : c.Submitting) (hs : c.pc.submitting = true)
    (hbefore : c.kind = .accept → c'.pc.beforeSocket = c.pc.beforeSocket)
    (hholds : c.kind = .accept → c'.pc.holdsSocket = c.pc.holdsSocket)
    (hkind : c'.kind = c.kind) (hcreated : c'.socketCreated = c.socketCreated)
    (howned : c'.socketOwned = c.socketOwned)
    (hdisposed : c'.socketDisposed = c.socketDisposed) (halive : c'.task.destroyed = 0) :
    c'.Submitting where
  alive := fun _ => halive
  noSocket := fun _ hb => by
    rw [hcreated]
    exact h.noSocket hs fun hk => hbefore hk ▸ hb (hkind.trans hk)
  created := fun hk _ hb => by
    have hk' : c.kind = .accept := hkind ▸ hk
    rw [hcreated]
    exact h.created hk' hs (hbefore hk' ▸ hb)
  owned := fun _ => by
    rw [howned, hcreated, h.owned hs]
    by_cases hk : c.kind = .accept
    · rw [hholds hk]
    · rw [h.noSocket hs fun ha => absurd ha hk]
      rfl
  disposed := fun _ => hdisposed.trans (h.disposed hs)

/-- The step lemma of `Submitting` for the submit call. -/
theorem Submitting.submit {c c' : Call} {choice : SubmitChoice} (h : c.Submitting)
    (hstep : Submits c choice (.next c')) : c'.Submitting := by
  cases hstep with
  | call kind tooBig hpc =>
      have hs : c.pc.submitting = true := by rw [hpc]; rfl
      have hno : c.socketCreated = false := h.noSocket hs fun _ => by rw [hpc]; rfl
      have howned : c.socketOwned = false := by rw [h.owned hs, hno]; rfl
      rw [enter]
      split
      · exact .fail _ _
      · exact ⟨fun _ => h.alive hs, fun _ _ => hno,
          fun _ _ hb => absurd hb (by simp [SubmitPc.beforeSocket]),
          fun _ => howned.trans (by simp [hno]), fun _ => h.disposed hs⟩
  | allocTask ok hpc =>
      rw [allocTask]
      split
      · refine h.move (by rw [hpc]; rfl) (fun _ => by rw [hpc]; rfl) (fun _ => by rw [hpc]; rfl)
          rfl rfl rfl rfl ?_
        cases hk : c.kind <;> simp [AsyncTask.incRef]
      · exact .fail _ _
  | createSocket ok hpc hkind =>
      have hs : c.pc.submitting = true := by rw [hpc]; rfl
      rw [createSocket]
      split
      · exact ⟨fun _ => h.alive hs, fun _ hb => absurd (hb hkind) (by simp [SubmitPc.beforeSocket]),
          fun _ _ _ => rfl, fun _ => rfl, fun _ => h.disposed hs⟩
      · exact .fail _ _
  | allocOverlapped ok hpc hkind =>
      have hs : c.pc.submitting = true := by rcases hpc with hpc | hpc <;> rw [hpc] <;> rfl
      have hready : c.kind = .accept → c.pc = .socketReady := fun hk =>
        hpc.resolve_left fun ha => hkind ha hk
      rw [allocOverlapped]
      split
      · exact h.move hs (fun hk => by rw [hready hk]; rfl) (fun hk => by rw [hready hk]; rfl)
          rfl rfl rfl rfl (h.alive hs)
      · exact .fail _ _
  | issue result hpc =>
      have hs : c.pc.submitting = true := by rw [hpc]; rfl
      rw [Call.issue]
      split <;>
        exact h.move hs (fun _ => by rw [hpc]; rfl) (fun _ => by rw [hpc]; rfl) rfl rfl rfl rfl
          (h.alive hs)
  | accept ok result hpc hacc =>
      have hs : c.pc.submitting = true := by rw [hpc]; rfl
      exact ⟨fun _ => h.alive hs,
        fun _ hb => h.noSocket hs fun hk => absurd (hb hk) (by simp [SubmitPc.beforeSocket]),
        fun hk _ _ => h.created hk hs (by rw [hpc]; rfl),
        fun _ => by simp [SubmitPc.holdsSocket], fun _ => h.disposed hs⟩
  | refuse ok code e hpc hacc he => exact .fail _ _
  | insertFails hpc =>
      have hs : c.pc.submitting = true := by rw [hpc]; rfl
      exact h.move hs (fun _ => by rw [hpc]; rfl) (fun _ => by rw [hpc]; rfl) rfl rfl rfl rfl
        (h.alive hs)
  | unwind hpc =>
      rw [unwind_eq]
      exact .of_not rfl
  | giveUp hpc => exact .of_not rfl
  | share hpc => exact .of_not rfl
  | assignOut hpc => exact .of_not rfl
  | leave hpc =>
      rw [leave_eq]
      exact .of_not rfl
  | release hpc href => exact .of_not (by rw [hpc]; rfl)

/-- A drop by a worker while the submit call is under way is never the last: the block keeps
its reference. -/
theorem destroyed_of_submitting {c c' : Call} (hl : c.Ledger) (ha' : c'.Accounted)
    (hs : c'.pc.submitting = true) (hissued : c'.pc.beforeIssue = false)
    (heff : RefEffect c c') : c'.task.destroyed = c.task.destroyed := by
  cases heff with
  | keeps status htask hr => rw [htask]
  | takes sz htask hr =>
      rw [htask]
      rfl
  | drops htask hr =>
      have hpc : c'.pc.ownsTask = true ∧ c'.pc.beforeBlock = false ∧
          c'.pc.afterInsert = false := by
        revert hs hissued
        cases c'.pc <;> simp [SubmitPc.submitting, SubmitPc.beforeIssue, SubmitPc.ownsTask,
          SubmitPc.beforeBlock, SubmitPc.afterInsert]
      have hover : c'.overlappedRef = true :=
        overlappedRef_of_not_inserted ha'.sound ha'.built hpc.1 hpc.2.1 hpc.2.2
      have hone : 1 ≤ c'.refs := by
        rw [refs, hover, Bool.toNat_true]
        omega
      rw [htask, destroyed_decRef hl (by omega)]

/-- **The step lemma of `Submitting`**: every step keeps it. -/
theorem Submitting.step {c c' : Call} {ev : Event} (ha : c.Accounted) (ha' : c'.Accounted)
    (h : c.Submitting) (hstep : Steps c ev c') : c'.Submitting := by
  by_cases hev : ∀ choice, ev ≠ .submit choice
  · have hf : PacketFrame c c' := packetFrame_of_steps hstep hev
    have hissued : c.packet ≠ .notIssued := by
      cases hstep with
      | submit hsub => exact absurd rfl (hev _)
      | register hsub => exact absurd rfl (hev _)
      | _ => simp [*]
    have hbefore : c'.pc.beforeIssue = false := by
      rw [hf.pc]
      by_contra hne
      exact hissued (ha.sound.notIssued (by simpa using hne))
    by_cases hs : c.pc.submitting = true
    · have halive : c.task.destroyed = 0 := h.alive hs
      refine h.move hs (fun _ => by rw [hf.pc]) (fun _ => by rw [hf.pc]) hf.kind
        hf.socketCreated hf.socketOwned hf.socketDisposed ?_
      rw [destroyed_of_submitting (ha.ledger halive) ha' (by rw [hf.pc]; exact hs) hbefore
        (refEffect_of_steps ha.built hstep hev), halive]
    · exact .of_not (by rw [hf.pc]; simpa using hs)
  · cases hstep with
    | submit hsub => exact h.submit hsub
    | register hsub =>
        cases hsub with
        | insert hpc => exact .of_not rfl
    | _ => exact absurd (fun _ he => by cases he) hev

/-- A call that has not been made satisfies `Submitting`. -/
theorem submitting_init : ({} : Call).Submitting :=
  ⟨fun _ => rfl, fun _ _ => rfl, fun _ _ hb => absurd hb (by decide), fun _ => rfl,
    fun _ => rfl⟩

end Call

/-- In every run of an operation its task lives until its call fails or registers it. -/
theorem lifecycle_submitting {H : Call → Event → Prop} {c : Call}
    (h : lifecycle.RunWhere H lifecycle.init c) : c.Accounted ∧ c.Submitting := by
  refine h.invariant (I := fun c => c.Accounted ∧ c.Submitting)
    ⟨lifecycle_accounted (H := H) .refl, Call.submitting_init⟩ ?_
  rintro c ev c' ⟨ha, hs⟩ - hstep
  have hsteps := Call.steps_of_after hstep
  exact ⟨ha.step hsteps, hs.step ha (ha.step hsteps) hsteps⟩

/-! ### The failing exits -/

namespace Call

/-- Before the kernel call nothing is pending. -/
theorem kernelPending_eq_false {c : Call} (hs : c.Sound) (hpc : c.pc.beforeIssue = true) :
    c.kernelPending = false := by
  by_contra hne
  have hpending : c.packet = .pending := hs.pending.mp (by simpa using hne)
  rw [hs.notIssued hpc] at hpending
  cases hpending

/-- Before the insert only the block and `rawTask` of a worker can hold a reference on the
task of a call that does not count its own. -/
theorem refs_of_not_inserted {c : Call} (hs : c.Sound) (hb : c.Built) (hk : c.kind ≠ .read)
    (hover : c.overlappedRef = true) (hins : c.pc.afterInsert = false)
    (hshare : c.pc.afterShare = false) : c.refs = 1 + c.packet.rawRef.toNat := by
  have hlocal : c.localRef = false := by simp [localRef, hk]
  have hno : c.callerRef = false := hb.callerRef_eq_false hshare
  have hunreg : c.registered = false := by
    by_contra hne
    exact absurd (hins.symm.trans (hs.inserted (by simpa using hne))) Bool.false_ne_true
  have htask : c.packet.taskRef = false := by
    by_contra hne
    have hfound : c.packet.found = true := by
      revert hne
      cases c.packet with
      | held stage => cases stage <;> simp [PacketPhase.taskRef, PacketPhase.found, Stage.hasTask]
      | _ => exact fun hne => absurd rfl hne
    exact absurd (hins.symm.trans (hs.found hfound)) Bool.false_ne_true
  simp [refs, hlocal, hover, hno, hunreg, htask]

/-- The new socket is disposed of once by a failing exit if the call still had it. -/
theorem Submitting.disposed_fail {c : Call} (h : c.Submitting) (e : ExceptionPointer)
    (p : FailPoint) (hs : c.pc.submitting = true) :
    (c.fail e p).socketDisposed = (c.socketCreated && c.pc.holdsSocket).toNat := by
  rw [fail_eq]
  simp only [h.disposed hs, h.owned hs, Nat.zero_add]

/-- **A failing exit before there is a task** undoes all. -/
theorem undone_unallocated {c : Call} (hs : c.Sound) (h : c.Submitting) (e : ExceptionPointer)
    (p : FailPoint) (hpc : c.pc = .idle ∨ c.pc = .entered) (hfresh : c.task = {}) :
    (c.fail e p).Undone := by
  have hsub : c.pc.submitting = true := by rcases hpc with hpc | hpc <;> rw [hpc] <;> rfl
  have hno : c.socketCreated = false := h.noSocket hsub fun _ => by
    rcases hpc with hpc | hpc <;> rw [hpc] <;> rfl
  have hkernel : c.kernelPending = false :=
    kernelPending_eq_false hs (by rcases hpc with hpc | hpc <;> rw [hpc] <;> rfl)
  have howner : c.dropOwner = c := by simp [dropOwner, hfresh]
  have hdisposed := h.disposed_fail e p hsub
  refine ⟨?_, ?_, ?_, ?_, ?_, ?_⟩
  · rw [fail_eq, howner, hfresh]
    rfl
  · rw [fail_eq, howner, hfresh]
    rfl
  · rw [fail_eq, howner, hfresh]
  · rw [fail_eq, howner, hfresh]
  · rw [hdisposed, hno, fail_eq]
    simp [hno]
  · rw [fail_eq]
    exact fun hk => absurd (hkernel.symm.trans hk) Bool.false_ne_true

/-- **A failing exit before there is a block** undoes all: either owner runs the
destructor once. -/
theorem undone_noBlock {c : Call} (ha : c.Accounted) (h : c.Submitting) (e : ExceptionPointer)
    (p : FailPoint) (hpc : c.pc = .allocated ∨ c.pc = .socketReady)
    (hsocket : (c.socketCreated && c.pc.holdsSocket) = c.socketCreated) :
    (c.fail e p).Undone := by
  obtain ⟨hs, -, hb, hl⟩ := ha
  have hsub : c.pc.submitting = true := by rcases hpc with hpc | hpc <;> rw [hpc] <;> rfl
  have hkernel : c.kernelPending = false :=
    kernelPending_eq_false hs (by rcases hpc with hpc | hpc <;> rw [hpc] <;> rfl)
  have halive : c.task.destroyed = 0 := h.alive hsub
  have hledger : c.Ledger := hl halive
  have hallocated : c.task.allocated = true := hb.owned (by
    rcases hpc with hpc | hpc <;> rw [hpc] <;> rfl)
  have hnoblock : c.task.hasOverlapped = false := hb.noBlock (by
    rcases hpc with hpc | hpc <;> rw [hpc] <;> rfl)
  have hcallback : c.task.hasCallback = false := hb.callback.trans hnoblock
  have hbuffer : c.task.bufferRefs = if c.task.buffered then 1 else 0 := by
    have hrefs := hledger.bufferRefs
    rw [hnoblock] at hrefs
    exact hrefs
  have hcb : c.task.callbackRefs = 0 := by
    have hrefs := hledger.callbackRefs
    rw [hcallback] at hrefs
    exact hrefs
  have htask : ∃ n d, c.dropOwner.task =
      { c.task with refCount := n, dropped := d }.releaseMembers := by
    by_cases hk : c.kind = .read
    · have hone : c.task.refCount = 1 :=
        hledger.count.trans (refs_of_beforeBlock hs hb hpc hk)
      refine ⟨0, c.task.dropped + 1, ?_⟩
      simp [dropOwner, hallocated, hk, touch,
        AsyncTask.decRef_last_without_overlapped hone hnoblock]
    · have howner : c.dropOwner.task = c.task.onRefZero := by
        simp [dropOwner, hallocated, hk, touch]
      refine ⟨c.task.refCount, c.task.dropped, ?_⟩
      rw [howner, AsyncTask.onRefZero_without_overlapped hnoblock]
  obtain ⟨n, d, htask⟩ := htask
  have hdisposed := h.disposed_fail e p hsub
  refine ⟨?_, ?_, ?_, ?_, ?_, ?_⟩
  · rw [fail_eq, htask]
    simp [AsyncTask.releaseMembers, halive, hallocated]
  · rw [fail_eq, htask]
    simp [AsyncTask.releaseMembers, hledger.overlappedReleased, hnoblock]
  · rw [fail_eq, htask]
    simp [AsyncTask.releaseMembers, hbuffer]
  · rw [fail_eq, htask]
    simp [AsyncTask.releaseMembers, hcb, hcallback]
  · rw [hdisposed, hsocket, fail_eq]
  · rw [fail_eq]
    exact fun hk => absurd (hkernel.symm.trans hk) Bool.false_ne_true

/-- A worker that has the packet of an operation whose task is not in the set drops it without
having found the task. -/
theorem missing_of_held {c : Call} {stage : Stage} (hs : c.Sound) (hins : c.pc.afterInsert = false)
    (hp : c.packet = .held stage) :
    stage = .dequeued ∨ stage = .locked ∨ ∃ exits, stage = .dropRaw exits false := by
  have hunfound : c.packet.found = false := by
    by_contra hne
    exact absurd (hins.symm.trans (hs.found (by simpa using hne))) Bool.false_ne_true
  rw [hp] at hunfound
  cases stage with
  | dequeued => exact .inl rfl
  | locked => exact .inr (.inl rfl)
  | dropRaw exits hit =>
      cases hit with
      | true => exact absurd hunfound.symm Bool.false_ne_true
      | false => exact .inr (.inr ⟨exits, rfl⟩)
  | _ => exact absurd hunfound.symm Bool.false_ne_true

/-- The insert found no memory, and the local owners have been dropped. -/
def unwound (c : Call) : Bool := c.pc = .unwound || c.failPoint = some .postAsyncTask

/-- **What a failing exit after the kernel call leaves of the task**: that of `readAsync` is left
behind with its block; that of the other two is destroyed twice, at the latest when the worker
that holds it drops it. -/
structure Spoiled (c : Call) : Prop where
  read : c.kind = .read → c.task.allocated = true ∧ c.task.destroyed = 0 ∧ c.overlappedRef = true
  other : c.kind ≠ .read → 2 ≤ c.task.destroyed ∨
    c.packet.rawRef = true ∧ c.task.destroyed = 1 ∧ c.task.refCount = 1

/-- **The end of the scope** with the block allocated spoils the operation. -/
theorem spoiled_of_ended {c c' : Call} (ha : c.Accounted) (h : c.Submitting)
    (howns : c.pc.ownsTask = true) (hblock : c.pc.beforeBlock = false)
    (hins : c.pc.afterInsert = false) (hshare : c.pc.afterShare = false)
    (hsub : c.pc.submitting = true) (htask : c'.task = c.dropOwner.task)
    (hkind : c'.kind = c.kind) (hpacket : c'.packet = c.packet) : c'.Spoiled := by
  have halive : c.task.destroyed = 0 := h.alive hsub
  have hallocated : c.task.allocated = true := ha.built.owned howns
  have hover : c.task.hasOverlapped = true := ha.built.block howns hblock
  have href : c.overlappedRef = true :=
    overlappedRef_of_not_inserted ha.sound ha.built howns hblock hins
  have hcount : c.task.refCount = c.refs := (ha.ledger halive).count
  refine ⟨fun hk => ?_, fun hk => ?_⟩
  · have hk' : c.kind = .read := hkind ▸ hk
    have htwo : 2 ≤ c.refs := two_le_refs_of_read hk' howns (.inl href)
    have hdrop : c'.task = c.task.decRef := by
      rw [htask]
      simp [dropOwner, hallocated, hk', touch]
    have hsame := AsyncTask.sameObject_decRef c.task
    refine ⟨?_, ?_, ?_⟩
    · rw [hdrop, hsame.allocated, hallocated]
    · rw [hdrop, destroyed_decRef (ha.ledger halive) htwo, halive]
    · rw [overlappedRef] at href ⊢
      rwa [hdrop, hsame.hasOverlapped, hpacket]
  · have hk' : c.kind ≠ .read := hkind ▸ hk
    have hrefs := refs_of_not_inserted ha.sound ha.built hk' href hins hshare
    have hdrop : c'.task = c.task.onRefZero := by
      rw [htask]
      simp [dropOwner, hallocated, hk', touch]
    rw [hdrop, hpacket]
    cases hraw : c.packet.rawRef with
    | false =>
        have hone : c.task.refCount = 1 := by
          rw [hcount, hrefs, hraw]
          rfl
        exact .inl (by rw [(AsyncTask.onRefZero_one hone hover).1]; omega)
    | true =>
        have htwo : c.task.refCount = 2 := by
          rw [hcount, hrefs, hraw]
          rfl
        refine .inr ⟨rfl, ?_, ?_⟩ <;>
          simp [AsyncTask.onRefZero_of_two_le (by omega : 2 ≤ c.task.refCount) hover,
            AsyncTask.releaseMembers, halive, htwo]

/-- A spoiled operation stays so when a worker takes a reference, or drops one, without having
found the task. -/
theorem Spoiled.packet {c c' : Call} {ev : Event} (ha : c.Accounted) (h : c.Spoiled)
    (hins : c.pc.afterInsert = false) (hstep : Steps c ev c')
    (hev : ∀ choice, ev ≠ .submit choice) : c'.Spoiled := by
  have hle : c.task.destroyed ≤ c'.task.destroyed := le_destroyed_step ha.built hstep
  -- the steps behind the lookup are those of a worker that found the task
  have hmissing : ∀ {stage}, c.packet = .held stage →
      stage = .dequeued ∨ stage = .locked ∨ ∃ exits, stage = .dropRaw exits false :=
    missing_of_held ha.sound hins
  cases hstep with
  | submit hsub => exact absurd rfl (hev _)
  | register hsub => exact absurd rfl (hev _)
  | complete hp | completeFailed hp | dequeue hp | takeFailed hp =>
      refine ⟨fun hk => ?_, fun hk => .inl ?_⟩
      · obtain ⟨hallocated, halive, hover⟩ := h.read hk
        rw [overlappedRef, hp] at hover
        exact ⟨hallocated, halive, hover⟩
      · rcases h.other hk with htwice | ⟨hraw, -⟩
        · exact htwice
        · rw [hp] at hraw
          exact absurd hraw Bool.false_ne_true
  | holdRaw sz hp =>
      refine ⟨fun hk => ?_, fun hk => .inl ?_⟩
      · obtain ⟨hallocated, halive, hover⟩ := h.read hk
        rw [overlappedRef, hp] at hover
        exact ⟨hallocated, halive, hover⟩
      · rcases h.other hk with htwice | ⟨hraw, -⟩
        · exact htwice
        · rw [hp] at hraw
          exact absurd hraw Bool.false_ne_true
  | miss sz hp hreg =>
      refine ⟨fun hk => ?_, fun hk => ?_⟩
      · obtain ⟨hallocated, halive, hover⟩ := h.read hk
        rw [overlappedRef, hp] at hover
        exact ⟨hallocated, halive, hover⟩
      · exact (h.other hk).imp_right fun hraw => ⟨rfl, hraw.2⟩
  | dropRaw sz exits hit hp =>
      rcases hmissing hp with hst | hst | ⟨exits', hst⟩
      · cases hst
      · cases hst
      obtain rfl : hit = false := (Stage.dropRaw.inj hst).2
      have hraw : c.packet.rawRef = true := by rw [hp]; rfl
      refine ⟨fun hk => ?_, fun hk => .inl ?_⟩
      · obtain ⟨hallocated, halive, hover⟩ := h.read hk
        have htwo : 2 ≤ c.refs := by
          rw [refs, hover, hraw, Bool.toNat_true]
          omega
        have hsame := AsyncTask.sameObject_decRef c.task
        refine ⟨hsame.allocated.trans hallocated, ?_, ?_⟩
        · exact (destroyed_decRef (ha.ledger halive) htwo).trans halive
        · rw [overlappedRef, hp] at hover
          rw [overlappedRef]
          change (c.task.decRef.hasOverlapped && !PacketPhase.discarded.blockDropped) = true
          rw [hsame.hasOverlapped]
          exact hover
      · rcases h.other hk with htwice | ⟨-, honce, hone⟩
        · exact Nat.le_trans htwice hle
        · have hzero : c.task.dropCount.refCount = 0 := by
            simp [AsyncTask.dropCount, decSize, hone]
          have hlt : c.task.dropCount.destroyed < c.task.decRef.destroyed := by
            rw [AsyncTask.decRef, if_pos hzero]
            exact AsyncTask.destroyed_lt_onRefZero _
          change 2 ≤ c.task.decRef.destroyed
          have hsame : c.task.dropCount.destroyed = 1 := honce
          omega
  | hit sz hp hreg =>
      exact absurd (hins.symm.trans (ha.sound.inserted hreg)) Bool.false_ne_true
  | dropOverlappedRef sz hp | addTransferred sz hp | setDone sz hp | invoke sz hp
  | dropTask sz exits hp => rcases hmissing hp with hst | hst | ⟨exits', hst⟩ <;> cases hst
  | stays sz hp hin hin' =>
      rcases hmissing hp with rfl | rfl | ⟨exits', rfl⟩ <;> exact absurd hin Bool.false_ne_true

/-- A call whose insert failed has returned an exception. -/
theorem returned_of_postAsyncTask {c : Call} (hx : c.Exits)
    (hfail : c.failPoint = some .postAsyncTask) : ∃ e, c.pc = .returned (some e) := by
  obtain ⟨-, e, hpc, hnull, -⟩ := hx.failed _ hfail
  obtain ⟨e, rfl⟩ := Option.ne_none_iff_exists'.mp (hnull (by simp))
  exact ⟨e, hpc⟩

/-- A failing exit before the insert is not one that unwinds. -/
theorem unwound_fail {c : Call} {e : ExceptionPointer} {p : FailPoint} (hp : p ≠ .postAsyncTask) :
    (c.fail e p).unwound = false := by
  simp [unwound, fail_eq, hp]

/-- **The submit call comes there** from an insert that found no memory. -/
theorem pc_of_unwound {c c' : Call} {choice : SubmitChoice} (hx : c.Exits)
    (hstep : Submits c choice (.next c')) (hun : c'.unwound = true) :
    c.pc = .unwinding ∨ c.pc = .unwound := by
  have hbefore : c.failPoint ≠ some .postAsyncTask := by
    intro hfail
    obtain ⟨e, hpc⟩ := returned_of_postAsyncTask hx hfail
    exact submits_pc_ne hstep e hpc
  have hkeeps : c'.failPoint = c.failPoint → c'.pc ≠ .unwound → False := by
    intro hsame hpc
    rcases Bool.or_eq_true_iff.mp hun with hunwound | hfail
    · exact hpc (of_decide_eq_true hunwound)
    · exact hbefore (hsame ▸ of_decide_eq_true hfail)
  have hfails : ∀ {c₀ e p}, c' = fail c₀ e p → p ≠ .postAsyncTask → False := by
    rintro c₀ e p rfl hp
    exact Bool.false_ne_true ((unwound_fail hp).symm.trans hun)
  cases hstep with
  | unwind hpc => exact .inl hpc
  | giveUp hpc => exact .inr hpc
  | call kind tooBig hpc =>
      unfold enter at hkeeps hfails
      split at hkeeps
      · rename_i htoo
        exact (hfails (if_pos htoo) (by simp)).elim
      · exact (hkeeps rfl (by simp)).elim
  | allocTask ok hpc =>
      cases ok with
      | true => exact (hkeeps rfl (by simp [allocTask])).elim
      | false => exact (hfails rfl (by simp)).elim
  | createSocket ok hpc hkind =>
      cases ok with
      | true => exact (hkeeps rfl (by simp [createSocket])).elim
      | false => exact (hfails rfl (by simp)).elim
  | allocOverlapped ok hpc hkind =>
      cases ok with
      | true => exact (hkeeps rfl (by simp [allocOverlapped])).elim
      | false => exact (hfails rfl (by simp)).elim
  | issue result hpc =>
      rw [Call.issue] at hkeeps
      split at hkeeps <;> exact (hkeeps rfl (by simp)).elim
  | refuse ok code e hpc hacc he => exact (hfails rfl (by simp)).elim
  | leave hpc =>
      rw [leave_eq] at hkeeps
      exact (hkeeps rfl (by simp)).elim
  | release hpc href => exact (hkeeps rfl (by simp [hpc])).elim
  | accept ok result hpc hacc | insertFails hpc | share hpc | assignOut hpc =>
      exact (hkeeps rfl (by simp [share, assignOut])).elim

/-- **The step lemma of `Spoiled`**: every step keeps it. -/
theorem Spoiled.step {c c' : Call} {ev : Event} (ha : c.Accounted) (hsub : c.Submitting)
    (h : c.unwound = true → c.Spoiled) (hstep : Steps c ev c') (hun : c'.unwound = true) :
    c'.Spoiled := by
  by_cases hev : ∀ choice, ev ≠ .submit choice
  · have hf : PacketFrame c c' := packetFrame_of_steps hstep hev
    have hold : c.unwound = true := by
      rw [unwound, hf.pc, hf.failPoint] at hun
      exact hun
    refine (h hold).packet ha ?_ hstep hev
    rcases Bool.or_eq_true_iff.mp hold with hpc | hfail
    · rw [of_decide_eq_true hpc]
      rfl
    · obtain ⟨e, hpc⟩ := returned_of_postAsyncTask ha.exits (of_decide_eq_true hfail)
      rw [hpc]
      rfl
  · cases hstep with
    | submit hsubmit =>
        rcases pc_of_unwound ha.exits hsubmit hun with hpc | hpc
        · cases hsubmit with
          | unwind hpc =>
              refine spoiled_of_ended ha hsub (by rw [hpc]; rfl) (by rw [hpc]; rfl)
                (by rw [hpc]; rfl) (by rw [hpc]; rfl) (by rw [hpc]; rfl) ?_ ?_ ?_ <;>
                rw [unwind_eq]
          | allocOverlapped ok hpc' => rcases hpc' with hpc' | hpc' <;> cases hpc.symm.trans hpc'
          | _ => simp_all
        · have hspoiled : c.Spoiled := h (by simp [unwound, hpc])
          cases hsubmit with
          | giveUp hpc => exact ⟨hspoiled.read, hspoiled.other⟩
          | allocOverlapped ok hpc' => rcases hpc' with hpc' | hpc' <;> cases hpc.symm.trans hpc'
          | _ => simp_all
    | register hsubmit =>
        cases hsubmit with
        | insert hpc =>
            have hfail : c.failPoint = none := ha.exits.failPoint_eq_none (by simp [hpc])
            simp [unwound, touch, hfail] at hun
    | _ => exact absurd (fun _ he => by cases he) hev

/-- Such a task is not undone, unless a worker has still to drop it. -/
theorem Spoiled.not_undone {c : Call} (h : c.Spoiled)
    (hraw : c.kind = .read ∨ c.packet.rawRef = false) : ¬c.Undone := by
  intro hundone
  have honce := hundone.destroyed
  by_cases hk : c.kind = .read
  · obtain ⟨hallocated, halive, -⟩ := h.read hk
    rw [halive, hallocated] at honce
    exact absurd honce (by decide)
  · have htwice : 2 ≤ c.task.destroyed := (h.other hk).resolve_right fun hlent =>
      absurd ((hraw.resolve_left hk).symm.trans hlent.1) Bool.false_ne_true
    have hle : c.task.allocated.toNat ≤ 1 := Bool.toNat_le _
    omega

/-- **Which failing exits undo all** is said exit by exit: `c` is the call before the failing step
and `c'` after it. -/
theorem undone_iff {c c' : Call} {ev : Event} {p : FailPoint} (ha : c.Accounted)
    (h : c.Submitting) (hstep : Steps c ev c') (hbefore : c.failPoint = none)
    (hfail : c'.failPoint = some p) (hp : p ≠ .postAsyncTask) :
    c'.Undone ↔ p.beforeBlock = true := by
  have hexit : ∀ c₀ e q, (fail c₀ e q).failPoint = some q := fun c₀ e q => by rw [fail_eq]
  by_cases hev : ∀ choice, ev ≠ .submit choice
  · have hsame := (packetFrame_of_steps hstep hev).failPoint
    rw [hsame, hbefore] at hfail
    cases hfail
  cases hstep with
  | submit hsub =>
      cases hsub with
      | call kind tooBig hpc =>
          have hfresh : c.task = {} := ha.built.fresh (.inl hpc)
          have hs : ({ c with kind := kind } : Call).Sound :=
            ⟨ha.sound.notIssued, ha.sound.pending, ha.sound.inserted, ha.sound.found⟩
          have hsub : c.pc.submitting = true := by rw [hpc]; rfl
          have hno : c.socketCreated = false := h.noSocket hsub fun _ => by rw [hpc]; rfl
          have hkind : ({ c with kind := kind } : Call).Submitting :=
            ⟨h.alive, fun _ _ => hno,
              fun _ _ hb => absurd (hb.symm.trans (by rw [hpc]; rfl)) Bool.false_ne_true,
              h.owned, h.disposed⟩
          unfold enter at hfail ⊢
          split at hfail
          · rename_i htoo
            obtain rfl := Option.some.inj ((hexit _ _ _).symm.trans hfail)
            rw [if_pos htoo]
            exact iff_of_true (undone_unallocated hs hkind _ _ (.inl hpc) hfresh) rfl
          · rw [hbefore] at hfail
            cases hfail
      | allocTask ok hpc =>
          have hfresh : c.task = {} := ha.built.fresh (.inr hpc)
          cases ok with
          | true => exact absurd (hbefore.symm.trans hfail) (by simp)
          | false =>
              obtain rfl := Option.some.inj ((hexit _ _ _).symm.trans hfail)
              exact iff_of_true (undone_unallocated ha.sound h _ _ (.inr hpc) hfresh) rfl
      | createSocket ok hpc hkind =>
          cases ok with
          | true => exact absurd (hbefore.symm.trans hfail) (by simp)
          | false =>
              obtain rfl := Option.some.inj ((hexit _ _ _).symm.trans hfail)
              have hno : c.socketCreated = false :=
                h.noSocket (by rw [hpc]; rfl) fun _ => by rw [hpc]; rfl
              exact iff_of_true (undone_noBlock ha h _ _ (.inl hpc) (by rw [hno]; rfl)) rfl
      | allocOverlapped ok hpc hkind =>
          have hsocket : (c.socketCreated && c.pc.holdsSocket) = c.socketCreated := by
            rcases hpc with hpc | hpc
            · have hno : c.socketCreated = false :=
                h.noSocket (by rw [hpc]; rfl) fun _ => by rw [hpc]; rfl
              rw [hno]
              rfl
            · rw [hpc]
              exact Bool.and_true _
          cases ok with
          | true => exact absurd (hbefore.symm.trans hfail) (by simp)
          | false =>
              obtain rfl := Option.some.inj ((hexit _ _ _).symm.trans hfail)
              exact iff_of_true (undone_noBlock ha h _ _ hpc hsocket) rfl
      | refuse ok code e hpc hacc he =>
          obtain rfl := Option.some.inj ((hexit _ _ _).symm.trans hfail)
          have hpacket : c.packet = .notIssued :=
            ha.exits.refused _ hpc (not_kernelAccepts he)
          have hspoiled : (c.fail e .kernelCall).Spoiled := by
            refine spoiled_of_ended ha h (by rw [hpc]; rfl) (by rw [hpc]; rfl) (by rw [hpc]; rfl)
              (by rw [hpc]; rfl) (by rw [hpc]; rfl) ?_ ?_ ?_ <;> rw [fail_eq]
          refine iff_of_false (hspoiled.not_undone (.inr ?_)) Bool.false_ne_true
          rw [fail_eq, hpacket]
          rfl
      | giveUp hpc => exact absurd (Option.some.inj hfail).symm hp
      | issue result hpc =>
          rw [Call.issue] at hfail
          split at hfail <;> exact absurd (hbefore.symm.trans hfail) (by simp)
      | leave hpc =>
          rw [leave_eq] at hfail
          exact absurd (hbefore.symm.trans hfail) (by simp)
      | unwind hpc =>
          rw [unwind_eq] at hfail
          exact absurd (hbefore.symm.trans hfail) (by simp)
      | accept ok result hpc hacc | insertFails hpc | share hpc | assignOut hpc
      | release hpc href => exact absurd (hbefore.symm.trans hfail) (by simp)
  | register hsub =>
      cases hsub with
      | insert hpc => exact absurd (hbefore.symm.trans hfail) (by simp)
  | _ => exact absurd (fun _ he => by cases he) hev

/-- A call that failed before the kernel call takes no more steps, and neither do the kernel and
the workers. -/
theorem no_steps {c c' : Call} {ev : Event} {e : Exception} (hpc : c.pc = .returned (some e))
    (hp : c.packet = .notIssued) (hstep : Steps c ev c') : False := by
  cases hstep with
  | submit hsub => exact submits_pc_ne hsub e hpc
  | register hsub => exact submits_pc_ne hsub e hpc
  | _ => simp_all

end Call

/-- An operation whose insert found no memory is spoiled in every run. -/
theorem lifecycle_spoiled {H : Call → Event → Prop} {c : Call}
    (h : lifecycle.RunWhere H lifecycle.init c) (hun : c.unwound = true) : c.Spoiled := by
  have hall : (c.Accounted ∧ c.Submitting) ∧ (c.unwound = true → c.Spoiled) := by
    refine h.invariant (I := fun c => (c.Accounted ∧ c.Submitting) ∧
      (c.unwound = true → c.Spoiled))
      ⟨lifecycle_submitting (H := H) .refl, fun hun => absurd hun Bool.false_ne_true⟩ ?_
    rintro c ev c' ⟨⟨ha, hsub⟩, hspoiled⟩ - hstep
    have hsteps := Call.steps_of_after hstep
    have ha' : c'.Accounted := ha.step hsteps
    exact ⟨⟨ha', hsub.step ha ha' hsteps⟩, Call.Spoiled.step ha hsub hspoiled hsteps⟩
  exact hall.2 hun

/-- A call that failed before the kernel call stays as it is. -/
theorem settled_of_run {H : Call → Event → Prop} {c c' : Call} {e : Exception}
    (hpc : c.pc = .returned (some e)) (hp : c.packet = .notIssued)
    (h : lifecycle.RunWhere H c c') : c' = c := by
  refine h.invariant (I := fun c' => c' = c) rfl ?_
  rintro _ ev c' rfl - hstep
  exact (Call.no_steps hpc hp (Call.steps_of_after hstep)).elim

/-! ### From the return on -/

namespace State

/-- A step that changes the failing exit of a call is one of that call, and the process goes on. -/
theorem aborted_of_failPoint {n : ℕ} {s t : State n} {l : Label n} {o : OpId} (hcoh : s.Coherent)
    (hstep : s.step l = some t) (hfail : (t.calls o).failPoint ≠ (s.calls o).failPoint) :
    t.aborted = none := by
  rcases steps_of_step hcoh hstep (o := o) with hsame | ⟨ev, hsteps, hlabel⟩
  · exact absurd (by rw [hsame]) hfail
  · by_cases hev : ∀ choice, ev ≠ .submit choice
    · exact absurd (Call.packetFrame_of_steps hsteps hev).failPoint hfail
    · obtain ⟨choice, hchoice⟩ := not_forall_not.mp hev
      obtain rfl := hlabel choice hchoice
      obtain ⟨hab, hgo⟩ := Option.ite_none_left_eq_some.mp hstep
      obtain ⟨a, -, rfl⟩ := Option.map_eq_some_iff.mp hgo
      cases a with
      | next c | registers c => simpa [setCall] using hab
      | aborts reason => exact absurd rfl hfail

/-- A worker drops a packet it did not find the task of. -/
theorem exists_discards {n : ℕ} {s : State n} {w : Fin n} {o : OpId} {sz : ℕ} {exits : Bool}
    (hab : s.aborted = none) (hw : (s.workers w).pc = .handling o sz (.dropRaw exits false)) :
    ∃ t, (service n).step s (.worker w .go) = some t ∧ t.calls o = (s.calls o).dropRaw false := by
  refine ⟨(s.setCall o ((s.calls o).dropRaw false)).setPc w (if exits then .exited else .waiting),
    ?_, ?_⟩
  · simp only [service, step, hab, workerStep, hw, handlingStep]
    rfl
  · simp [setPc, setWorker, setCall]

/-- A worker does not find the task of a packet. -/
theorem exists_misses {n : ℕ} {s : State n} {w : Fin n} {o : OpId} {sz : ℕ}
    (hab : s.aborted = none) (hw : (s.workers w).pc = .handling o sz .locked)
    (ho : o ∉ s.currentTasks) :
    ∃ t, (service n).step s (.worker w .go) = some t ∧ t.aborted = none ∧
      (t.workers w).pc = .handling o sz (.dropRaw false false) ∧
      t.calls o = (s.calls o).atStage (.dropRaw false false) := by
  refine ⟨s.lookup w o sz, ?_, ?_⟩
  · simp only [service, step, hab, workerStep, hw, handlingStep]
    rfl
  · simp [lookup, ho, advance, setPc, setWorker, setCall, hab]

/-- **The worker that holds a task destroys it**: it drops its packet, without having found
the task. -/
theorem exists_discarded {n : ℕ} {s : State n} {o : OpId} {stage : Stage} (hcoh : s.Coherent)
    (hab : s.aborted = none) (hp : (s.calls o).packet = .held stage)
    (hstage : stage = .locked ∨ ∃ exits, stage = .dropRaw exits false)
    (ho : o ∉ s.currentTasks) :
    ∃ t, (service n).RunWhere (fun _ _ => True) s t ∧ (t.calls o).packet = .discarded ∧
      (t.calls o).failPoint = (s.calls o).failPoint ∧ (t.calls o).kind = (s.calls o).kind := by
  obtain ⟨w, hop⟩ := (hcoh o).holder stage hp
  obtain ⟨sz, hw⟩ : ∃ sz, (s.workers w).pc = .handling o sz stage := by
    revert hop
    cases (s.workers w).pc with
    | handling o' sz stage' =>
        intro hop
        obtain ⟨rfl, rfl⟩ := Prod.mk.inj (Option.some.inj hop)
        exact ⟨sz, rfl⟩
    | _ => exact fun hop => by cases hop
  rcases hstage with rfl | ⟨exits, rfl⟩
  · obtain ⟨t, hstep, habt, hwt, hcall⟩ := exists_misses hab hw ho
    obtain ⟨u, hstep', hcall'⟩ := exists_discards habt hwt
    refine ⟨u, (Machine.RunWhere.single trivial hstep).trans (.single trivial hstep'), ?_⟩
    rw [hcall', hcall]
    exact ⟨rfl, rfl, rfl⟩
  · obtain ⟨t, hstep, hcall⟩ := exists_discards hab hw
    refine ⟨t, .single trivial hstep, ?_⟩
    rw [hcall]
    exact ⟨rfl, rfl, rfl⟩

end State

/-- **Which failing exits leave nothing behind**, in any run of the service: `s` is the state
before the call of `o` returns through the exit `p`, and `t` the state after it. Nothing is left
from the return on, whatever happens then, if and only if there was no block yet. -/
theorem nothing_left_iff {n : ℕ} {s t : State n} {l : Label n} {o : OpId} {p : FailPoint}
    (hs : (service n).Reachable s) (hstep : s.step l = some t)
    (hbefore : (s.calls o).failPoint = none) (hfail : (t.calls o).failPoint = some p) :
    (∀ u, (service n).RunWhere (fun _ _ => True) t u → u.NothingLeft o) ↔
      p.beforeBlock = true := by
  have hcoh : s.Coherent := service_coherent hs
  have hmoves : s.Moves (s.eventOf l) t := State.moves_of_step hcoh hstep
  have hcoht : t.Coherent := hmoves.coherent hcoh
  have hone : (service n).RunWhere (fun _ _ => True) s t := .single trivial hstep
  have ht : (service n).Reachable t := hs.trans hone
  obtain ⟨ha, hsub⟩ := lifecycle_submitting (reachable_life hs o)
  rcases hmoves.calls o with hsame | ⟨ev, hev, hafter⟩
  · rw [hsame, hbefore] at hfail
    cases hfail
  have hsteps := Call.steps_of_after hafter
  obtain ⟨hreg, e, hpc, hnull, hissued⟩ := (ha.step hsteps).exits.failed p hfail
  have hunreg : ∀ {u : State n}, u.Coherent → (u.calls o).registered = false →
      o ∉ u.currentTasks := by
    intro u hcohu hregu
    have hcount := (hcohu o).tasks
    rw [hregu] at hcount
    exact List.count_eq_zero.mp hcount
  by_cases hp : p = .postAsyncTask
  · subst hp
    refine iff_of_false (fun hnothing => ?_) Bool.false_ne_true
    have hspoiled : (t.calls o).Spoiled :=
      lifecycle_spoiled (reachable_life ht o) (by simp [Call.unwound, hfail])
    by_cases hraw : (t.calls o).kind = .read ∨ (t.calls o).packet.rawRef = false
    · exact hspoiled.not_undone hraw (hnothing t .refl).undone
    · -- the worker that holds the task destroys it a second time
      obtain ⟨hk, hraw⟩ := not_or.mp hraw
      have hat : (t.calls o).Accounted := ha.step hsteps
      obtain ⟨e, rfl⟩ := Option.ne_none_iff_exists'.mp (hnull (by simp))
      obtain ⟨stage, hheld⟩ : ∃ stage, (t.calls o).packet = .held stage := by
        cases hpacket : (t.calls o).packet with
        | held stage => exact ⟨stage, rfl⟩
        | _ => rw [hpacket] at hraw; exact absurd rfl hraw
      have hstage : stage = .locked ∨ ∃ exits, stage = .dropRaw exits false := by
        refine (Call.missing_of_held hat.sound (by rw [hpc]; rfl) hheld).resolve_left ?_
        rintro rfl
        rw [hheld] at hraw
        exact hraw rfl
      have hab : t.aborted = none := State.aborted_of_failPoint hcoh hstep (by
        rw [hfail, hbefore]
        exact Option.some_ne_none _)
      obtain ⟨u, hrun, hpacket, hfailu, hkind⟩ :=
        State.exists_discarded hcoht hab hheld hstage (hunreg hcoht hreg)
      have hspoiledu : (u.calls o).Spoiled :=
        lifecycle_spoiled (reachable_life (ht.trans hrun) o) (by simp [Call.unwound, hfailu, hfail])
      exact hspoiledu.not_undone (.inr (by rw [hpacket]; rfl)) (hnothing u hrun).undone
  · have hiff := Call.undone_iff ha hsub hsteps hbefore hfail hp
    refine ⟨fun hnothing => hiff.mp (hnothing t .refl).undone, fun hblock u hrun => ?_⟩
    have hne : p ≠ .kernelCall := by
      rintro rfl
      exact absurd hblock Bool.false_ne_true
    obtain ⟨e, rfl⟩ := Option.ne_none_iff_exists'.mp (hnull hne)
    have hsettled : u.calls o = t.calls o :=
      settled_of_run hpc (hissued hp) (life_of_any_run hcoht hrun o)
    have hcohu : u.Coherent := service_coherent (ht.trans hrun)
    exact ⟨hsettled ▸ hiff.mpr hblock, hunreg hcohu (hsettled ▸ hreg)⟩

/-! ### Concrete exits -/

/-- A write whose block cannot be allocated leaves nothing behind. -/
theorem nothing_left_iff_write :
    ∃ t : State 1, (t.calls 0).pc = .returned (some .outOfMemory) ∧
      ((∀ u, (service 1).RunWhere (fun _ _ => True) t u → u.NothingLeft 0) ↔
        FailPoint.beforeBlock .allocOverlapped = true) := by
  obtain ⟨s, hrun, t, hstep, hbefore, hpc, hfail⟩ := Machine.exists_runWhere (M := service 1)
    (G := fun _ _ => True) (s := (service 1).init)
    (P := fun s => ∃ t ∈ s.step (.submit 0 (.alloc false)), (s.calls 0).failPoint = none ∧
      (t.calls 0).pc = .returned (some .outOfMemory) ∧
      (t.calls 0).failPoint = some .allocOverlapped)
    ((submitUpToIssue .write).take 2) (by decide)
  exact ⟨t, hpc, nothing_left_iff hrun hstep hbefore hfail⟩

/-- **A leak**: the kernel refuses a read, and `readAsync` returns the error with its task
and its block still allocated. -/
theorem something_left :
    ¬∀ (n : ℕ) (s t : State n) (l : Label n) (o : OpId) (e : Exception),
      (service n).Reachable s → s.step l = some t → (s.calls o).failPoint = none →
      (t.calls o).failPoint ≠ none → (t.calls o).pc = .returned (some e) →
      t.NothingLeft o := by
  intro h
  obtain ⟨s, hrun, t, hstep, hbefore, hfail, hpc, hbad⟩ := Machine.exists_runWhere
    (M := service 1) (G := fun _ _ => True) (s := (service 1).init)
    (P := fun s => ∃ t ∈ s.step (.submit 0 (.alloc true)), (s.calls 0).failPoint = none ∧
      (t.calls 0).failPoint ≠ none ∧
      (t.calls 0).pc = .returned (some (.network .connectionReseted)) ∧
      (t.calls 0).task.destroyed ≠ (t.calls 0).task.allocated.toNat)
    ((submitUpToIssue .read).take 3 ++ [.submit 0 (.issue (.error WSAECONNRESET))]) (by decide)
  exact hbad (h 1 s t _ 0 _ hrun hstep hbefore hfail hpc).undone.destroyed

end Netknot.Win32
