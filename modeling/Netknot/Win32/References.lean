import Netknot.Win32.Projection

/-!
# Who Holds a Reference

The reference count of a task against the parties that hold a reference on it: the local
`task` of `readAsync`, the overlapped block, `currentTasks`, the caller, and the two locals
of the worker. As long as the destructor has not run, the count is the number of these
parties, and nothing has been dropped from a count of zero (`Call.Ledger`). The invariant
holds in every run, without any condition: each step either keeps it or runs the
destructor.

`Call.Built` says what has been allocated at each program point, destroyed or not.

## Main results

* `Call.Built.step`: what is allocated where.
* `Call.Ledger.step`: until the destructor has run, the count is the number of parties that
  hold a reference.
* `lifecycle_accounted`: both, in every run.
-/

namespace Netknot.Win32

/-- The program points at which the local `task` owns the object. -/
def SubmitPc.ownsTask : SubmitPc → Bool
  | .allocated | .socketReady | .prepared | .issued _ | .accepted | .unwinding | .posted
  | .shared | .leaving => true
  | _ => false

/-- A call that returned owns nothing. -/
@[simp] theorem SubmitPc.ownsTask_returned (e : ExceptionPointer) :
    (SubmitPc.returned e).ownsTask = false := rfl

/-- The program points at which there is no overlapped block yet. -/
def SubmitPc.beforeBlock : SubmitPc → Bool
  | .idle | .entered | .allocated | .socketReady => true
  | _ => false

/-- The program points after `task->incRef(0)`, on the successful path. -/
def SubmitPc.afterShare : SubmitPc → Bool
  | .shared | .leaving | .returned none => true
  | _ => false

/-- The worker has dropped the reference of the overlapped block. -/
def PacketPhase.blockDropped : PacketPhase → Bool
  | .held .unlocked => true
  | .held (.dropRaw _ hit) => hit
  | .held stage => stage.hasTask
  | .delivered => true
  | _ => false

/-- `rawTask` of the worker holds a reference. -/
def PacketPhase.rawRef : PacketPhase → Bool
  | .held .dequeued => false
  | .held _ => true
  | _ => false

/-- The local `task` of the worker holds a reference. -/
def PacketPhase.taskRef : PacketPhase → Bool
  | .held stage => stage.hasTask
  | _ => false

/-- A worker that has its local `task` has dropped the reference of the block, and both its own
are there. -/
theorem Stage.refs_of_hasTask {stage : Stage} (h : stage.hasTask = true) :
    (PacketPhase.held stage).blockDropped = true ∧ (PacketPhase.held stage).rawRef = true ∧
      (PacketPhase.held stage).taskRef = true := by
  cases stage <;> first | exact ⟨rfl, rfl, rfl⟩ | exact absurd h Bool.false_ne_true

namespace Call

/-- The local `task` of `readAsync` holds a reference. -/
def localRef (c : Call) : Bool := c.kind = .read && c.pc.ownsTask

/-- The overlapped block holds a reference. -/
def overlappedRef (c : Call) : Bool := c.task.hasOverlapped && !c.packet.blockDropped

/-- How many parties hold a reference on the task. -/
def refs (c : Call) : ℕ :=
  c.localRef.toNat + c.overlappedRef.toNat + c.registered.toNat + c.callerRef.toNat +
    c.packet.rawRef.toNat + c.packet.taskRef.toNat

/-- What is allocated at each program point, whatever happened to the count. -/
structure Built (c : Call) : Prop where
  fresh : c.pc = .idle ∨ c.pc = .entered → c.task = {}
  owned : c.pc.ownsTask = true → c.task.allocated = true
  noBlock : c.pc.beforeBlock = true → c.task.hasOverlapped = false
  block : c.pc.ownsTask = true → c.pc.beforeBlock = false → c.task.hasOverlapped = true
  issued : c.packet ≠ .notIssued → c.task.hasOverlapped = true
  handed : c.pc = .returned none → c.task.hasOverlapped = true
  callback : c.task.hasCallback = c.task.hasOverlapped
  buffered : c.task.allocated = true → (c.task.buffered = true ↔ c.kind ≠ .accept)
  socketOwned : c.socketOwned = true → c.socketCreated = true
  caller : c.callerRef = true → c.pc.afterShare = true

/-- Until the destructor has run: the count is the number of parties that hold a
reference, and the ledger is balanced. -/
structure Ledger (c : Call) : Prop where
  count : c.task.refCount = c.refs
  balance : c.task.taken = c.task.dropped + c.task.refCount
  decRefAtZero : c.task.decRefAtZero = 0
  overlappedReleased : c.task.overlappedReleased = 0
  bufferRefs : c.task.bufferRefs =
    if c.task.buffered then (if c.task.hasOverlapped then 2 else 1) else 0
  callbackRefs : c.task.callbackRefs = if c.task.hasCallback then 1 else 0
  fault : c.fault = false

end Call

/-! ### The object behind the count -/

namespace AsyncTask

/-- Two states of one object: what was allocated is the same. -/
structure SameObject (t t' : AsyncTask) : Prop where
  allocated : t'.allocated = t.allocated
  buffered : t'.buffered = t.buffered
  hasOverlapped : t'.hasOverlapped = t.hasOverlapped
  hasCallback : t'.hasCallback = t.hasCallback

theorem SameObject.refl (t : AsyncTask) : SameObject t t := ⟨rfl, rfl, rfl, rfl⟩

theorem SameObject.trans {t u v : AsyncTask} (h₁ : SameObject t u) (h₂ : SameObject u v) :
    SameObject t v :=
  ⟨h₂.allocated.trans h₁.allocated, h₂.buffered.trans h₁.buffered,
    h₂.hasOverlapped.trans h₁.hasOverlapped, h₂.hasCallback.trans h₁.hasCallback⟩

theorem sameObject_incRef (t : AsyncTask) : SameObject t t.incRef := ⟨rfl, rfl, rfl, rfl⟩

theorem sameObject_destroyAndRelease (n : ℕ) (t : AsyncTask) :
    SameObject t (destroyAndRelease n t) := by
  induction n generalizing t with
  | zero => exact .refl t
  | succ n ih =>
      have hrefs : SameObject t t.releaseOverlappedRefs := ⟨rfl, rfl, rfl, rfl⟩
      have hrec : SameObject t (destroyAndRelease n t.releaseOverlappedRefs) := hrefs.trans (ih _)
      rw [destroyAndRelease]
      split
      · split
        · exact ⟨hrec.allocated, hrec.buffered, hrec.hasOverlapped, hrec.hasCallback⟩
        · exact ⟨rfl, rfl, rfl, rfl⟩
      · exact ⟨rfl, rfl, rfl, rfl⟩

theorem sameObject_onRefZero (t : AsyncTask) : SameObject t t.onRefZero :=
  sameObject_destroyAndRelease 2 t

theorem sameObject_decRef (t : AsyncTask) : SameObject t t.decRef := by
  have hdrop : SameObject t t.dropCount := ⟨rfl, rfl, rfl, rfl⟩
  rw [decRef]
  split
  · exact hdrop.trans (sameObject_onRefZero _)
  · exact hdrop

/-- A drop that does not run the destructor is not the last: the count stays positive. -/
theorem two_le_of_decRef_alive {t : AsyncTask} (hpos : 0 < t.refCount)
    (h : t.decRef.destroyed = 0) : 2 ≤ t.refCount := by
  by_contra hlt
  have hzero : t.dropCount.refCount = 0 := by
    have hone : t.refCount = 1 := by omega
    simp [dropCount, decSize, hone]
  have hdestroyed : t.dropCount.destroyed < t.dropCount.onRefZero.destroyed :=
    destroyed_lt_onRefZero _
  rw [decRef, if_pos hzero] at h
  omega

/-- A drop that does not run the destructor only lowers the count. -/
theorem decRef_alive {t : AsyncTask} (hpos : 0 < t.refCount) (h : t.decRef.destroyed = 0) :
    t.decRef = { t with refCount := t.refCount - 1, dropped := t.dropped + 1 } :=
  decRef_of_two_le (two_le_of_decRef_alive hpos h)

end AsyncTask

namespace Call

/-- What the local `task` leaves behind is the same object. -/
theorem sameObject_dropOwner (c : Call) : AsyncTask.SameObject c.task c.dropOwner.task := by
  unfold dropOwner touch
  split
  · split
    · exact AsyncTask.sameObject_decRef _
    · exact AsyncTask.sameObject_onRefZero _
  · exact .refl _

/-! ### What is allocated -/

/-- A step after the allocations, by whichever thread: the object stays what it was. -/
theorem Built.of_sameObject {c c' : Call} (h : c.Built)
    (ht : AsyncTask.SameObject c.task c'.task)
    (hfresh : c'.pc = .idle ∨ c'.pc = .entered → c'.task = {})
    (howned : c'.pc.ownsTask = true → c.pc.ownsTask = true)
    (hbefore : c'.pc.beforeBlock = true → c.pc.beforeBlock = true)
    (hafter : c'.pc.ownsTask = true → c'.pc.beforeBlock = false → c.pc.beforeBlock = false)
    (hpacket : c'.packet ≠ .notIssued → c.task.hasOverlapped = true)
    (hhanded : c'.pc = .returned none → c.task.hasOverlapped = true)
    (hkind : c'.kind = c.kind)
    (hsocket : c'.socketOwned = true → c'.socketCreated = true)
    (hcaller : c'.callerRef = true → c'.pc.afterShare = true) : c'.Built where
  fresh := hfresh
  owned := fun ho => ht.allocated.trans (h.owned (howned ho))
  noBlock := fun hb => ht.hasOverlapped.trans (h.noBlock (hbefore hb))
  block := fun ho hb => ht.hasOverlapped.trans (h.block (howned ho) (hafter ho hb))
  issued := fun hp => ht.hasOverlapped.trans (hpacket hp)
  handed := fun hp => ht.hasOverlapped.trans (hhanded hp)
  callback := by rw [ht.hasCallback, ht.hasOverlapped]; exact h.callback
  buffered := fun ha => by
    rw [ht.buffered, hkind]
    exact h.buffered (ht.allocated ▸ ha)
  socketOwned := hsocket
  caller := hcaller

/-- A step of the kernel or of a worker leaves the object and the submitting thread. -/
theorem Built.of_packet {c c' : Call} (h : c.Built) (ht : AsyncTask.SameObject c.task c'.task)
    (hpc : c'.pc = c.pc) (hkind : c'.kind = c.kind) (howned : c'.socketOwned = c.socketOwned)
    (hcreated : c'.socketCreated = c.socketCreated) (href : c'.callerRef = c.callerRef)
    (hs : c.Sound) (hissued : c.packet ≠ .notIssued) : c'.Built := by
  refine h.of_sameObject ht (fun hf => ?_) (fun ho => hpc ▸ ho) (fun hb => hpc ▸ hb)
    (fun _ hb => hpc ▸ hb) (fun _ => h.issued hissued) (fun _ => h.issued hissued) hkind
    (fun hso => by rw [hcreated]; exact h.socketOwned (howned ▸ hso))
    (fun hr => by rw [hpc]; exact h.caller (href ▸ hr))
  rw [hpc] at hf
  refine absurd (hs.notIssued ?_) hissued
  rcases hf with hf | hf <;> rw [hf] <;> rfl

/-- Before `task->incRef(0)` the caller has no reference. -/
theorem Built.callerRef_eq_false {c : Call} (h : c.Built) (hpc : c.pc.afterShare = false) :
    c.callerRef = false := by
  by_contra hne
  exact absurd (hpc.symm.trans (h.caller (by simpa using hne))) Bool.false_ne_true

/-- A failing exit keeps what was allocated. -/
theorem Built.fail {c : Call} (h : c.Built) (e : ExceptionPointer) (p : FailPoint)
    (hshare : c.pc.afterShare = false)
    (hpacket : c.packet ≠ .notIssued → c.task.hasOverlapped = true)
    (hhanded : e = none → c.task.hasOverlapped = true) : (c.fail e p).Built := by
  have hno : c.callerRef = false := h.callerRef_eq_false hshare
  rw [fail_eq]
  refine h.of_sameObject (sameObject_dropOwner c) (fun hf => ?_)
    (fun ho => absurd ho Bool.false_ne_true) (fun hb => absurd hb Bool.false_ne_true)
    (fun ho => absurd ho Bool.false_ne_true) hpacket (fun hp => hhanded (by simpa using hp)) rfl
    (fun hso => absurd hso Bool.false_ne_true)
    (fun hr => absurd (hno.symm.trans hr) Bool.false_ne_true)
  rcases hf with hf | hf <;> exact absurd hf (by simp)

/-- A step on the successful path after the block was allocated keeps what was allocated. -/
theorem Built.move {c c' : Call} (h : c.Built) (ht : AsyncTask.SameObject c.task c'.task)
    (howns : c.pc.ownsTask = true) (hblock : c.pc.beforeBlock = false)
    (hbefore : c'.pc.beforeBlock = false) (hkind : c'.kind = c.kind)
    (hsocket : c'.socketOwned = true → c.socketOwned = true)
    (hcreated : c'.socketCreated = c.socketCreated)
    (hcaller : c'.callerRef = true → c'.pc.afterShare = true) : c'.Built := by
  have hover : c.task.hasOverlapped = true := h.block howns hblock
  refine h.of_sameObject ht (fun hf => ?_) (fun _ => howns)
    (fun hb => absurd (hbefore.symm.trans hb) Bool.false_ne_true) (fun _ _ => hblock)
    (fun _ => hover) (fun _ => hover) hkind
    (fun hso => by rw [hcreated]; exact h.socketOwned (hsocket hso)) hcaller
  rcases hf with hf | hf <;> rw [hf] at hbefore <;> exact absurd hbefore (by decide)

/-- The step lemma of `Built` for the submit call. -/
theorem Built.submit {c c' : Call} {choice : SubmitChoice} (hs : c.Sound) (h : c.Built)
    (hstep : Submits c choice (.next c')) : c'.Built := by
  cases hstep with
  | call kind tooBig hpc =>
      have hfresh : c.task = {} := h.fresh (.inl hpc)
      have hnot : c.packet = .notIssued := hs.notIssued (by rw [hpc]; rfl)
      have hkind : ({ c with kind := kind } : Call).Built := by
        refine ⟨h.fresh, h.owned, h.noBlock, h.block, h.issued, h.handed, h.callback,
          fun ha => ?_, h.socketOwned, h.caller⟩
        rw [hfresh] at ha
        exact absurd ha Bool.false_ne_true
      have hno : c.callerRef = false := h.callerRef_eq_false (by rw [hpc]; rfl)
      rw [enter]
      split
      · exact hkind.fail _ _ (by rw [hpc]; rfl) (fun hne => absurd hnot hne)
          (fun hne => absurd hne (by simp))
      · refine ⟨fun _ => hfresh, fun ho => absurd ho Bool.false_ne_true, fun _ => ?_,
          fun ho => absurd ho Bool.false_ne_true, fun hne => absurd hnot hne,
          fun hp => by simp at hp, hkind.callback, hkind.buffered, h.socketOwned,
          fun hr => absurd (hno.symm.trans hr) Bool.false_ne_true⟩
        rw [hfresh]
  | allocTask ok hpc =>
      have hnot : c.packet = .notIssued := hs.notIssued (by rw [hpc]; rfl)
      have hno : c.callerRef = false := h.callerRef_eq_false (by rw [hpc]; rfl)
      rw [allocTask]
      split
      · refine ⟨fun hf => by simp at hf, fun _ => ?_, fun _ => ?_,
          fun _ hb => absurd hb (by simp [SubmitPc.beforeBlock]), fun hne => absurd hnot hne,
          fun hp => by simp at hp, ?_, fun _ => ?_, h.socketOwned,
          fun hr => absurd (hno.symm.trans hr) Bool.false_ne_true⟩
        all_goals cases hk : c.kind <;> simp [AsyncTask.incRef]
      · exact h.fail _ _ (by rw [hpc]; rfl) (fun hne => absurd hnot hne)
          (fun hne => absurd hne (by simp))
  | createSocket ok hpc hkind =>
      have hnot : c.packet = .notIssued := hs.notIssued (by rw [hpc]; rfl)
      have hno : c.callerRef = false := h.callerRef_eq_false (by rw [hpc]; rfl)
      rw [createSocket]
      split
      · exact ⟨fun hf => by simp at hf, fun _ => h.owned (by rw [hpc]; rfl),
          fun _ => h.noBlock (by rw [hpc]; rfl),
          fun _ hb => absurd hb (by simp [SubmitPc.beforeBlock]), fun hne => absurd hnot hne,
          fun hp => by simp at hp, h.callback, h.buffered, fun _ => rfl,
          fun hr => absurd (hno.symm.trans hr) Bool.false_ne_true⟩
      · exact h.fail _ _ (by rw [hpc]; rfl) (fun hne => absurd hnot hne)
          (fun hne => absurd hne (by simp))
  | allocOverlapped ok hpc =>
      have hnot : c.packet = .notIssued := hs.notIssued (by
        rcases hpc with hpc | hpc <;> rw [hpc] <;> rfl)
      have howned : c.task.allocated = true := h.owned (by
        rcases hpc with hpc | hpc <;> rw [hpc] <;> rfl)
      have hshare : c.pc.afterShare = false := by
        rcases hpc with hpc | hpc <;> rw [hpc] <;> rfl
      have hno : c.callerRef = false := h.callerRef_eq_false hshare
      rw [allocOverlapped]
      split
      · exact ⟨fun hf => by simp at hf, fun _ => howned,
          fun hb => absurd hb (by simp [SubmitPc.beforeBlock]), fun _ _ => rfl, fun _ => rfl,
          fun hp => by simp at hp, rfl, fun _ => h.buffered howned, h.socketOwned,
          fun hr => absurd (hno.symm.trans hr) Bool.false_ne_true⟩
      · exact h.fail _ _ hshare (fun hne => absurd hnot hne) (fun hne => absurd hne (by simp))
  | issue result hpc =>
      have hno : c.callerRef = false := h.callerRef_eq_false (by rw [hpc]; rfl)
      rw [Call.issue]
      split <;>
        exact h.move (.refl _) (by rw [hpc]; rfl) (by rw [hpc]; rfl) rfl rfl id rfl
          (fun hr => absurd (hno.symm.trans hr) Bool.false_ne_true)
  | accept ok result hpc hacc =>
      have hno : c.callerRef = false := h.callerRef_eq_false (by rw [hpc]; rfl)
      exact h.move (.refl _) (by rw [hpc]; rfl) (by rw [hpc]; rfl) rfl rfl
        (fun hso => absurd hso Bool.false_ne_true) rfl
        (fun hr => absurd (hno.symm.trans hr) Bool.false_ne_true)
  | refuse ok code e hpc hacc he =>
      have hblock : c.task.hasOverlapped = true := h.block (by rw [hpc]; rfl) (by rw [hpc]; rfl)
      exact h.fail _ _ (by rw [hpc]; rfl) (fun _ => hblock) (fun _ => hblock)
  | insertFails hpc =>
      have hno : c.callerRef = false := h.callerRef_eq_false (by rw [hpc]; rfl)
      exact h.move (.refl _) (by rw [hpc]; rfl) (by rw [hpc]; rfl) rfl rfl id rfl
        (fun hr => absurd (hno.symm.trans hr) Bool.false_ne_true)
  | unwind hpc =>
      have hno : c.callerRef = false := h.callerRef_eq_false (by rw [hpc]; rfl)
      rw [unwind_eq]
      exact h.move (sameObject_dropOwner c) (by rw [hpc]; rfl) (by rw [hpc]; rfl) rfl rfl
        (fun hso => absurd hso Bool.false_ne_true) rfl
        (fun hr => absurd (hno.symm.trans hr) Bool.false_ne_true)
  | giveUp hpc =>
      have hno : c.callerRef = false := h.callerRef_eq_false (by rw [hpc]; rfl)
      exact h.of_sameObject (.refl _) (fun hf => by simp [Call.giveUp] at hf)
        (fun ho => absurd ho Bool.false_ne_true) (fun hb => absurd hb Bool.false_ne_true)
        (fun ho => absurd ho Bool.false_ne_true) h.issued (fun hp => by simp [Call.giveUp] at hp)
        rfl h.socketOwned (fun hr => absurd (hno.symm.trans hr) Bool.false_ne_true)
  | share hpc =>
      exact h.move (AsyncTask.sameObject_incRef _) (by rw [hpc]; rfl) (by rw [hpc]; rfl) rfl rfl
        id rfl (fun _ => rfl)
  | assignOut hpc =>
      exact h.move (.refl _) (by rw [hpc]; rfl) (by rw [hpc]; rfl) rfl rfl id rfl (fun _ => rfl)
  | leave hpc =>
      rw [leave_eq]
      refine h.move ?_ (by rw [hpc]; rfl) (by rw [hpc]; rfl) rfl rfl id rfl (fun _ => rfl)
      by_cases hk : c.kind = .read
      · rw [if_pos hk]
        exact AsyncTask.sameObject_decRef _
      · rw [if_neg hk]
        exact .refl _
  | release hpc href =>
      have hblock : c.task.hasOverlapped = true := h.handed hpc
      exact h.of_sameObject (AsyncTask.sameObject_decRef _) (fun hf => by simp [hpc] at hf)
        (fun ho => ho) (fun hb => hb) (fun _ hb => hb) (fun _ => hblock) (fun _ => hblock) rfl
        h.socketOwned (fun hr => absurd hr Bool.false_ne_true)

/-- **The step lemma of `Built`**: every step keeps it. -/
theorem Built.step {c c' : Call} {ev : Event} (hs : c.Sound) (h : c.Built)
    (hstep : Steps c ev c') : c'.Built := by
  cases hstep with
  | submit hsub => exact h.submit hs hsub
  | register hsub =>
      cases hsub with
      | insert hpc =>
          have hno : c.callerRef = false := h.callerRef_eq_false (by rw [hpc]; rfl)
          exact h.move (AsyncTask.sameObject_incRef _) (by rw [hpc]; rfl) (by rw [hpc]; rfl) rfl
            rfl id rfl (fun hr => absurd (hno.symm.trans hr) Bool.false_ne_true)
  | complete hp => exact h.of_packet (.refl _) rfl rfl rfl rfl rfl hs (by simp [hp])
  | completeFailed hp => exact h.of_packet (.refl _) rfl rfl rfl rfl rfl hs (by simp [hp])
  | dequeue hp => exact h.of_packet (.refl _) rfl rfl rfl rfl rfl hs (by simp [hp])
  | takeFailed hp => exact h.of_packet (.refl _) rfl rfl rfl rfl rfl hs (by simp [hp])
  | holdRaw sz hp =>
      exact h.of_packet (AsyncTask.sameObject_incRef _) rfl rfl rfl rfl rfl hs (by simp [hp])
  | hit sz hp hreg =>
      exact h.of_packet (AsyncTask.sameObject_decRef _) rfl rfl rfl rfl rfl hs (by simp [hp])
  | miss sz hp hreg => exact h.of_packet (.refl _) rfl rfl rfl rfl rfl hs (by simp [hp])
  | dropOverlappedRef sz hp =>
      exact h.of_packet (AsyncTask.sameObject_decRef _) rfl rfl rfl rfl rfl hs (by simp [hp])
  | addTransferred sz hp | setDone sz hp =>
      exact h.of_packet ⟨rfl, rfl, rfl, rfl⟩ rfl rfl rfl rfl rfl hs (by simp [hp])
  | invoke sz hp => exact h.of_packet (.refl _) rfl rfl rfl rfl rfl hs (by simp [hp])
  | stays sz hp hin hin' => exact h.of_packet (.refl _) rfl rfl rfl rfl rfl hs (by simp [hp])
  | dropTask sz exits hp =>
      exact h.of_packet (AsyncTask.sameObject_decRef _) rfl rfl rfl rfl rfl hs (by simp [hp])
  | dropRaw sz exits hit hp =>
      exact h.of_packet (AsyncTask.sameObject_decRef _) rfl rfl rfl rfl rfl hs (by simp [hp])

/-- A call that has not been made has nothing allocated. -/
theorem built_init : ({} : Call).Built where
  fresh := fun _ => rfl
  owned := fun ho => absurd ho Bool.false_ne_true
  noBlock := fun _ => rfl
  block := fun ho => absurd ho Bool.false_ne_true
  issued := fun hne => absurd rfl hne
  handed := fun hp => by cases hp
  callback := rfl
  buffered := fun ha => absurd ha Bool.false_ne_true
  socketOwned := fun hso => absurd hso Bool.false_ne_true
  caller := fun hr => absurd hr Bool.false_ne_true

/-! ### The ledger -/

/-- There are at most six parties. -/
theorem refs_le (c : Call) : c.refs ≤ 6 := by
  have h₁ := Bool.toNat_le c.localRef
  have h₂ := Bool.toNat_le c.overlappedRef
  have h₃ := Bool.toNat_le c.registered
  have h₄ := Bool.toNat_le c.callerRef
  have h₅ := Bool.toNat_le c.packet.rawRef
  have h₆ := Bool.toNat_le c.packet.taskRef
  rw [refs]
  omega

/-- While the local `task` of `readAsync` holds a reference there is one. -/
theorem refs_pos_of_localRef {c : Call} (h : c.localRef = true) : 0 < c.refs := by
  rw [refs, h, Bool.toNat_true]
  omega

/-- The local `task` of `readAsync` holds a reference, so with that of another party there
are two. -/
theorem two_le_refs_of_read {c : Call} (hk : c.kind = .read) (howns : c.pc.ownsTask = true)
    (hother : c.overlappedRef = true ∨ c.callerRef = true ∨ c.packet.rawRef = true) :
    2 ≤ c.refs := by
  have hlocal : c.localRef = true := by simp [localRef, hk, howns]
  rcases hother with hother | hother | hother <;>
    · rw [refs, hlocal, hother, Bool.toNat_true]
      omega

/-- A step that moves no party leaves the number of references. -/
theorem refs_congr {c c' : Call} (hkind : c'.kind = c.kind)
    (howns : c'.pc.ownsTask = c.pc.ownsTask)
    (hblock : c'.task.hasOverlapped = c.task.hasOverlapped)
    (hreg : c'.registered = c.registered) (hcaller : c'.callerRef = c.callerRef)
    (hpacket : c'.packet = c.packet) : c'.refs = c.refs := by
  simp only [refs, localRef, overlappedRef, hkind, howns, hblock, hreg, hcaller, hpacket]

/-- A step that changes no reference keeps the ledger, whatever status it stores. -/
theorem Ledger.marked {c c' : Call} (h : c.Ledger) (status : AsyncTaskStatus)
    (htask : c'.task = { c.task with status := status }) (hrefs : c'.refs = c.refs)
    (hfault : c'.fault = false) : c'.Ledger where
  count := by rw [htask, hrefs]; exact h.count
  balance := by rw [htask]; exact h.balance
  decRefAtZero := by rw [htask]; exact h.decRefAtZero
  overlappedReleased := by rw [htask]; exact h.overlappedReleased
  bufferRefs := by rw [htask]; exact h.bufferRefs
  callbackRefs := by rw [htask]; exact h.callbackRefs
  fault := hfault

/-- A step that leaves the task alone keeps the ledger. -/
theorem Ledger.same {c c' : Call} (h : c.Ledger) (htask : c'.task = c.task)
    (hrefs : c'.refs = c.refs) (hfault : c'.fault = false) : c'.Ledger :=
  h.marked c.task.status htask hrefs hfault

/-- Taking a reference, with one party more, keeps the ledger. -/
theorem Ledger.took {c c' : Call} (h : c.Ledger) (sz : ℕ)
    (htask : c'.task = { c.task.incRef with szOperated := sz })
    (hrefs : c'.refs = c.refs + 1) (hfault : c'.fault = false) : c'.Ledger := by
  have hsmall : c.task.refCount < SIZE_MAX := by
    have hle : c.refs ≤ 6 := refs_le c
    rw [h.count, SIZE_MAX]
    omega
  have hinc : c'.task.refCount = c.task.refCount + 1 := by
    rw [htask]
    exact incSize_of_lt hsmall
  refine ⟨?_, ?_, ?_, ?_, ?_, ?_, hfault⟩
  · rw [hinc, hrefs, h.count]
  · have hb : c.task.taken = c.task.dropped + c.task.refCount := h.balance
    have htaken : c'.task.taken = c.task.taken + 1 := by rw [htask]; rfl
    have hdropped : c'.task.dropped = c.task.dropped := by rw [htask]; rfl
    omega
  · rw [htask]
    exact h.decRefAtZero
  · rw [htask]
    exact h.overlappedReleased
  · rw [htask]
    exact h.bufferRefs
  · rw [htask]
    exact h.callbackRefs

/-- **Dropping a reference**, with one party less, keeps the ledger or runs the destructor. -/
theorem Ledger.dropped {c c' : Call} (h : c.Ledger) (htask : c'.task = c.task.decRef)
    (hrefs : c'.refs + 1 = c.refs) (hfault : c'.fault = false)
    (halive : c'.task.destroyed = 0) : c'.Ledger := by
  have hpos : 0 < c.task.refCount := by
    rw [h.count]
    omega
  have hdrop : c'.task =
      { c.task with refCount := c.task.refCount - 1, dropped := c.task.dropped + 1 } := by
    rw [htask]
    exact AsyncTask.decRef_alive hpos (htask ▸ halive)
  refine ⟨?_, ?_, ?_, ?_, ?_, ?_, hfault⟩
  · have hc : c.task.refCount = c.refs := h.count
    rw [hdrop]
    change c.task.refCount - 1 = c'.refs
    omega
  · have hb : c.task.taken = c.task.dropped + c.task.refCount := h.balance
    rw [hdrop]
    change c.task.taken = c.task.dropped + 1 + (c.task.refCount - 1)
    omega
  · rw [hdrop]
    exact h.decRefAtZero
  · rw [hdrop]
    exact h.overlappedReleased
  · rw [hdrop]
    exact h.bufferRefs
  · rw [hdrop]
    exact h.callbackRefs

/-- What a step can do to the count: leave it, storing a status or not, take a reference with
one party more, or drop one with one party less. -/
inductive RefEffect (c c' : Call) : Prop
  | keeps (status : AsyncTaskStatus) (htask : c'.task = { c.task with status := status })
      (hrefs : c'.refs = c.refs)
  | takes (sz : ℕ) (htask : c'.task = { c.task.incRef with szOperated := sz })
      (hrefs : c'.refs = c.refs + 1)
  | drops (htask : c'.task = c.task.decRef) (hrefs : c'.refs + 1 = c.refs)

/-- An effect on a living task that leaves it alive keeps the ledger. -/
theorem Ledger.of_effect {c c' : Call} (h : c.Ledger) (heff : RefEffect c c')
    (hfault : c'.fault = c.fault) (halive : c'.task.destroyed = 0) : c'.Ledger := by
  cases heff with
  | keeps status htask hrefs => exact h.marked status htask hrefs (hfault.trans h.fault)
  | takes sz htask hrefs => exact h.took sz htask hrefs (hfault.trans h.fault)
  | drops htask hrefs => exact h.dropped htask hrefs (hfault.trans h.fault) halive

/-- The caller drops one reference. -/
theorem refEffect_release {c : Call} (href : c.callerRef = true) :
    RefEffect c { c with task := c.task.decRef, callerRef := false, released := true } := by
  have hover : c.task.decRef.hasOverlapped = c.task.hasOverlapped :=
    (AsyncTask.sameObject_decRef c.task).hasOverlapped
  refine .drops rfl ?_
  simp only [refs, localRef, overlappedRef, href, hover, Bool.toNat_true, Bool.toNat_false]
  omega

/-- The submitting thread takes a reference on a living task without fault. -/
theorem touch_incRef_fault {c : Call} (h : c.Ledger) (halive : c.task.destroyed = 0) :
    (c.touch AsyncTask.incRef).fault = false := by
  simp [touch, AsyncTask.incRef, h.fault, halive]

/-- The submitting thread drops a reference without fault when that leaves the task alive. -/
theorem touch_decRef_fault {c : Call} (h : c.Ledger) (hpos : 0 < c.refs)
    (halive : c.task.decRef.destroyed = 0) : (c.touch AsyncTask.decRef).fault = false := by
  have hold : c.task.destroyed = 0 := by
    have hle : c.task.destroyed ≤ c.task.decRef.destroyed := AsyncTask.le_destroyed_decRef _
    omega
  have hdrop := AsyncTask.decRef_alive (by rw [h.count]; exact hpos) halive
  simp [touch, hdrop, h.fault, hold]

/-- A failing exit before there is an object changes no reference. -/
theorem Ledger.fail_unallocated {c : Call} (h : c.Ledger) (e : ExceptionPointer)
    (p : FailPoint) (hpc : c.pc.ownsTask = false) (ha : c.task.allocated = false) :
    (c.fail e p).Ledger := by
  have howner : c.dropOwner = c := by
    rw [dropOwner, ha]
    rfl
  rw [fail_eq, howner]
  refine h.same rfl ?_ h.fault
  simp [refs, localRef, overlappedRef, hpc]

/-- **The end of the scope** that leaves the object alive dropped the reference of
`readAsync`'s local `task`. -/
theorem Ledger.ended {c c' : Call} (h : c.Ledger) (howns : c.pc.ownsTask = true)
    (ha : c.task.allocated = true) (htask : c'.task = c.dropOwner.task)
    (hfault : c'.fault = c.dropOwner.fault) (hpc : c'.pc.ownsTask = false)
    (hreg : c'.registered = c.registered) (hcaller : c'.callerRef = c.callerRef)
    (hpacket : c'.packet = c.packet) (halive : c'.task.destroyed = 0) : c'.Ledger := by
  by_cases hk : c.kind = .read
  · have howner : c.dropOwner = c.touch AsyncTask.decRef := by simp [dropOwner, ha, hk]
    have hlocal : c.localRef = true := by simp [localRef, hk, howns]
    have hdrop : c'.task = c.task.decRef := by rw [htask, howner]; rfl
    have halive' : c.task.decRef.destroyed = 0 := hdrop ▸ halive
    refine h.dropped hdrop ?_ ?_ halive
    · have hover : c'.task.hasOverlapped = c.task.hasOverlapped := by
        rw [hdrop]
        exact (AsyncTask.sameObject_decRef c.task).hasOverlapped
      have hnone : c'.localRef = false := by simp [localRef, hpc]
      simp only [refs, hlocal, hnone, overlappedRef, hover, hreg, hcaller, hpacket,
        Bool.toNat_true, Bool.toNat_false]
      omega
    · rw [hfault, howner]
      exact touch_decRef_fault h (refs_pos_of_localRef hlocal) halive'
  · have howner : c.dropOwner = c.touch AsyncTask.onRefZero := by simp [dropOwner, ha, hk]
    have hdestroyed : c.task.destroyed < c.task.onRefZero.destroyed :=
      AsyncTask.destroyed_lt_onRefZero _
    rw [htask, howner] at halive
    change c.task.onRefZero.destroyed = 0 at halive
    omega

/-- **A failing exit** that leaves the object alive ends the scope. -/
theorem Ledger.fail {c : Call} (h : c.Ledger) (e : ExceptionPointer) (p : FailPoint)
    (hpc : c.pc.ownsTask = true) (ha : c.task.allocated = true)
    (halive : (c.fail e p).task.destroyed = 0) : (c.fail e p).Ledger := by
  rw [fail_eq] at halive ⊢
  exact h.ended hpc ha rfl rfl rfl rfl rfl rfl halive

/-- The first allocation: the local `task` of `readAsync` counts the object. -/
theorem Ledger.allocTask {c : Call} (h : c.Ledger) (hfresh : c.task = {}) :
    (c.allocTask true).Ledger := by
  have hzero : c.refs = 0 := by
    rw [← h.count, hfresh]
  have hparts : c.registered = false ∧ c.callerRef = false ∧
      c.packet.rawRef = false ∧ c.packet.taskRef = false := by
    simp only [refs, Nat.add_eq_zero_iff, Bool.toNat_eq_zero] at hzero
    exact ⟨hzero.1.1.1.2, hzero.1.1.2, hzero.1.2, hzero.2⟩
  obtain ⟨hreg, hcaller, hraw, htask⟩ := hparts
  have hfault : c.fault = false := h.fault
  by_cases hk : c.kind = .read
  · constructor <;> simp [Call.allocTask, refs, localRef, overlappedRef, hreg, hcaller, hraw,
      htask, hfault, hk, SubmitPc.ownsTask, AsyncTask.incRef, incSize, SIZE_MAX]
  · constructor <;> simp [Call.allocTask, refs, localRef, overlappedRef, hreg, hcaller, hraw,
      htask, hfault, hk]

/-- The second allocation: the block counts the task and the buffer, the task gets the
callback. -/
theorem Ledger.allocOverlapped {c : Call} (h : c.Ledger) (hb : c.Built)
    (howns : c.pc.ownsTask = true) (hblock : c.pc.beforeBlock = true)
    (hnot : c.packet = .notIssued) (hold : c.task.destroyed = 0) :
    (c.allocOverlapped true).Ledger := by
  have hnoblock : c.task.hasOverlapped = false := hb.noBlock hblock
  have hcallback : c.task.hasCallback = false := hb.callback.trans hnoblock
  have hcount : c.task.refCount = c.refs := h.count
  have hbalance : c.task.taken = c.task.dropped + c.task.refCount := h.balance
  have hbuffer : c.task.bufferRefs = if c.task.buffered then 1 else 0 := by
    have hold := h.bufferRefs
    rw [hnoblock] at hold
    exact hold
  have hcb : c.task.callbackRefs = 0 := by
    have hold := h.callbackRefs
    rw [hcallback] at hold
    exact hold
  have hinc : c.task.incRef.refCount = c.task.refCount + 1 := by
    have hle : c.refs ≤ 6 := refs_le c
    refine incSize_of_lt ?_
    rw [hcount, SIZE_MAX]
    omega
  have hrefs : (c.allocOverlapped true).refs = c.refs + 1 := by
    have hlocal : (c.allocOverlapped true).localRef = c.localRef := by
      rw [localRef, localRef, howns]
      rfl
    have hover : (c.allocOverlapped true).overlappedRef = true := by
      simp [overlappedRef, Call.allocOverlapped, touch, hnot, PacketPhase.blockDropped]
    have hover' : c.overlappedRef = false := by simp [overlappedRef, hnoblock]
    change (c.allocOverlapped true).localRef.toNat + (c.allocOverlapped true).overlappedRef.toNat +
      c.registered.toNat + c.callerRef.toNat + c.packet.rawRef.toNat + c.packet.taskRef.toNat =
      c.refs + 1
    rw [hlocal, hover, refs, hover', Bool.toNat_true, Bool.toNat_false]
    omega
  refine ⟨?_, ?_, h.decRefAtZero, h.overlappedReleased, ?_, ?_, ?_⟩
  · rw [hrefs, ← hcount, ← hinc]
    rfl
  · change c.task.taken + 1 = c.task.dropped + c.task.incRef.refCount
    omega
  · simp only [Call.allocOverlapped, touch, AsyncTask.incRef, hbuffer, if_true]
    cases c.task.buffered <;> rfl
  · simp only [Call.allocOverlapped, touch, AsyncTask.incRef, hcb, if_true]
    rfl
  · simp [Call.allocOverlapped, touch, AsyncTask.incRef, h.fault, hold]

/-- The step lemma of `Ledger` for the submit call. -/
theorem Ledger.submit {c c' : Call} {choice : SubmitChoice} (hs : c.Sound) (hb : c.Built)
    (h : c.Ledger) (hstep : Submits c choice (.next c')) (hold : c.task.destroyed = 0)
    (halive : c'.task.destroyed = 0) : c'.Ledger := by
  cases hstep with
  | call kind tooBig hpc =>
      have hfresh : c.task = {} := hb.fresh (.inl hpc)
      have hkind : ({ c with kind := kind } : Call).Ledger :=
        h.same rfl (by simp [refs, localRef, overlappedRef, hpc, SubmitPc.ownsTask]) h.fault
      rw [enter]
      split
      · exact hkind.fail_unallocated _ _ (by rw [hpc]; rfl) (by rw [hfresh])
      · exact hkind.same rfl (refs_congr rfl (by rw [hpc]; rfl) rfl rfl rfl rfl) h.fault
  | allocTask ok hpc =>
      have hfresh : c.task = {} := hb.fresh (.inr hpc)
      cases ok with
      | true => exact h.allocTask hfresh
      | false => exact h.fail_unallocated _ _ (by rw [hpc]; rfl) (by rw [hfresh])
  | createSocket ok hpc hkind =>
      cases ok with
      | true => exact h.same rfl (refs_congr rfl (by rw [hpc]; rfl) rfl rfl rfl rfl) h.fault
      | false => exact h.fail _ _ (by rw [hpc]; rfl) (hb.owned (by rw [hpc]; rfl)) halive
  | allocOverlapped ok hpc =>
      have howns : c.pc.ownsTask = true := by rcases hpc with hpc | hpc <;> rw [hpc] <;> rfl
      have hblock : c.pc.beforeBlock = true := by rcases hpc with hpc | hpc <;> rw [hpc] <;> rfl
      have hnot : c.packet = .notIssued := hs.notIssued (by
        rcases hpc with hpc | hpc <;> rw [hpc] <;> rfl)
      cases ok with
      | true => exact h.allocOverlapped hb howns hblock hnot hold
      | false => exact h.fail _ _ howns (hb.owned howns) halive
  | issue result hpc =>
      have hnot : c.packet = .notIssued := hs.notIssued (by rw [hpc]; rfl)
      rw [Call.issue]
      split
      · refine h.same rfl ?_ h.fault
        simp only [refs, localRef, overlappedRef, hpc, hnot]
        rfl
      · exact h.same rfl (refs_congr rfl (by rw [hpc]; rfl) rfl rfl rfl rfl) h.fault
  | accept ok result hpc hacc =>
      exact h.same rfl (refs_congr rfl (by rw [hpc]; rfl) rfl rfl rfl rfl) h.fault
  | refuse ok code e hpc hacc he =>
      exact h.fail _ _ (by rw [hpc]; rfl) (hb.owned (by rw [hpc]; rfl)) halive
  | insertFails hpc | giveUp hpc =>
      exact h.same rfl (refs_congr rfl (by rw [hpc]; rfl) rfl rfl rfl rfl) h.fault
  | unwind hpc =>
      rw [unwind_eq] at halive ⊢
      exact h.ended (by rw [hpc]; rfl) (hb.owned (by rw [hpc]; rfl)) rfl rfl rfl rfl rfl rfl halive
  | share hpc =>
      have hno : c.callerRef = false := hb.callerRef_eq_false (by rw [hpc]; rfl)
      refine h.took _ rfl ?_ (touch_incRef_fault h hold)
      simp only [refs, localRef, overlappedRef, Call.share, touch, hpc, hno, AsyncTask.incRef,
        SubmitPc.ownsTask, Bool.toNat_true, Bool.toNat_false]
      omega
  | assignOut hpc =>
      exact h.same rfl (refs_congr rfl (by rw [hpc]; rfl) rfl rfl rfl rfl) h.fault
  | leave hpc =>
      rw [leave_eq] at halive ⊢
      by_cases hk : c.kind = .read
      · simp only [if_pos hk] at halive ⊢
        have hlocal : c.localRef = true := by simp [localRef, hk, hpc, SubmitPc.ownsTask]
        have hover : c.task.decRef.hasOverlapped = c.task.hasOverlapped :=
          (AsyncTask.sameObject_decRef c.task).hasOverlapped
        have hfault : (c.touch AsyncTask.decRef).fault = false :=
          touch_decRef_fault h (refs_pos_of_localRef hlocal) halive
        refine h.dropped rfl ?_ hfault halive
        simp only [refs, localRef, overlappedRef, hpc, hk, hover, SubmitPc.ownsTask,
          Bool.and_true, Bool.and_false, decide_true, Bool.toNat_true, Bool.toNat_false]
        omega
      · simp only [if_neg hk]
        refine h.same rfl ?_ h.fault
        simp [refs, localRef, overlappedRef, hk]
  | release hpc href => exact h.of_effect (refEffect_release href) rfl halive

/-! ### The kernel and the worker -/

/-- What the kernel and the worker leave alone: the submitting thread and the caller. -/
structure PacketFrame (c c' : Call) : Prop where
  pc : c'.pc = c.pc
  kind : c'.kind = c.kind
  callerRef : c'.callerRef = c.callerRef
  released : c'.released = c.released
  asyncTaskOut : c'.asyncTaskOut = c.asyncTaskOut
  failPoint : c'.failPoint = c.failPoint
  fault : c'.fault = c.fault
  socketCreated : c'.socketCreated = c.socketCreated
  socketOwned : c'.socketOwned = c.socketOwned
  socketDisposed : c'.socketDisposed = c.socketDisposed

/-- A step of the kernel or of the worker is framed. -/
theorem packetFrame_of_steps {c c' : Call} {ev : Event} (hstep : Steps c ev c')
    (hev : ∀ choice, ev ≠ .submit choice) : PacketFrame c c' := by
  cases hstep with
  | submit hsub => exact absurd rfl (hev _)
  | register hsub => exact absurd rfl (hev _)
  | _ => exact ⟨rfl, rfl, rfl, rfl, rfl, rfl, rfl, rfl, rfl, rfl⟩

/-- The parties of the submit call count after a step of the kernel or of a worker as
before it. -/
theorem refs_of_packetFrame {c c' : Call} (h : PacketFrame c c')
    (hblock : c'.task.hasOverlapped = c.task.hasOverlapped) :
    c'.refs = c.localRef.toNat + (c.task.hasOverlapped && !c'.packet.blockDropped).toNat +
      c'.registered.toNat + c.callerRef.toNat + c'.packet.rawRef.toNat +
      c'.packet.taskRef.toNat := by
  simp only [refs, localRef, overlappedRef, hblock, h.pc, h.kind, h.callerRef]

/-- A step that moves the packet between phases with the same parties keeps every reference. -/
theorem keeps_of_phase {c c' : Call} (hf : PacketFrame c c') (status : AsyncTaskStatus)
    (htask : c'.task = { c.task with status := status }) (hreg : c'.registered = c.registered)
    (hdropped : c'.packet.blockDropped = c.packet.blockDropped)
    (hraw : c'.packet.rawRef = c.packet.rawRef)
    (htaskRef : c'.packet.taskRef = c.packet.taskRef) : RefEffect c c' := by
  refine .keeps status htask ?_
  rw [refs_of_packetFrame hf (by rw [htask]), hreg, hdropped, hraw, htaskRef]
  rfl

/-- A step of the worker that fills one of its locals takes one reference. -/
theorem takes_of_phase {c c' : Call} (hf : PacketFrame c c') (sz : ℕ)
    (htask : c'.task = { c.task.incRef with szOperated := sz })
    (hreg : c'.registered = c.registered)
    (hdropped : c'.packet.blockDropped = c.packet.blockDropped)
    (hparty : c'.packet.rawRef.toNat + c'.packet.taskRef.toNat =
      c.packet.rawRef.toNat + c.packet.taskRef.toNat + 1) : RefEffect c c' := by
  refine .takes sz htask ?_
  have hover : c'.task.hasOverlapped = c.task.hasOverlapped := by
    rw [htask]
    rfl
  rw [refs_of_packetFrame hf hover, hreg, hdropped]
  unfold refs overlappedRef
  omega

/-- A step of the worker that gives up one party drops one reference. -/
theorem drops_of_phase {c c' : Call} (hf : PacketFrame c c') (htask : c'.task = c.task.decRef)
    (hparty : (c.task.hasOverlapped && !c'.packet.blockDropped).toNat + c'.registered.toNat +
        c'.packet.rawRef.toNat + c'.packet.taskRef.toNat + 1 =
      (c.task.hasOverlapped && !c.packet.blockDropped).toNat + c.registered.toNat +
        c.packet.rawRef.toNat + c.packet.taskRef.toNat) : RefEffect c c' := by
  refine .drops htask ?_
  have hover : c'.task.hasOverlapped = c.task.hasOverlapped := by
    rw [htask]
    exact (AsyncTask.sameObject_decRef c.task).hasOverlapped
  rw [refs_of_packetFrame hf hover]
  unfold refs overlappedRef
  omega

/-- **What the kernel and the worker do to the count**, step by step. -/
theorem refEffect_of_steps {c c' : Call} {ev : Event} (hb : c.Built) (hstep : Steps c ev c')
    (hev : ∀ choice, ev ≠ .submit choice) : RefEffect c c' := by
  have hf : PacketFrame c c' := packetFrame_of_steps hstep hev
  cases hstep with
  | submit hsub => exact absurd rfl (hev _)
  | register hsub => exact absurd rfl (hev _)
  | holdRaw sz hp => refine takes_of_phase hf _ rfl rfl ?_ ?_ <;> rw [hp] <;> rfl
  | hit sz hp hreg =>
      refine drops_of_phase hf rfl ?_
      rw [hp, hreg]
      rfl
  | dropOverlappedRef sz hp =>
      have hover : c.task.hasOverlapped = true := hb.issued (by simp [hp])
      refine drops_of_phase hf rfl ?_
      simp only [hp, hover, Call.dropOverlappedRef, PacketPhase.blockDropped, PacketPhase.rawRef,
        PacketPhase.taskRef, Stage.hasTask, Bool.not_true, Bool.not_false, Bool.and_true,
        Bool.and_false, Bool.toNat_true, Bool.toNat_false]
      omega
  | addTransferred sz hp => refine takes_of_phase hf _ rfl rfl ?_ ?_ <;> rw [hp] <;> rfl
  | stays sz hp hin hin' =>
      obtain ⟨hd, hr, ht⟩ := Stage.refs_of_hasTask (Stage.hasTask_of_called hin)
      obtain ⟨hd', hr', ht'⟩ := Stage.refs_of_hasTask (Stage.hasTask_of_called hin')
      refine keeps_of_phase hf _ rfl rfl ?_ ?_ ?_
      · rw [hp, hd]
        exact hd'
      · rw [hp, hr]
        exact hr'
      · rw [hp, ht]
        exact ht'
  | dropTask sz exits hp =>
      refine drops_of_phase hf rfl ?_
      rw [hp]
      rfl
  | dropRaw sz exits hit hp =>
      refine drops_of_phase hf rfl ?_
      rw [hp]
      cases hit <;> rfl
  | complete hp | completeFailed hp | dequeue hp | takeFailed hp | miss sz hp hreg
  | setDone sz hp | invoke sz hp =>
      refine keeps_of_phase hf _ rfl rfl ?_ ?_ ?_ <;> rw [hp] <;> rfl

/-- **The step lemma of `Ledger`.** A step from a living task to a living task keeps
the ledger. -/
theorem Ledger.step {c c' : Call} {ev : Event} (hs : c.Sound) (hb : c.Built) (h : c.Ledger)
    (hstep : Steps c ev c') (hold : c.task.destroyed = 0) (halive : c'.task.destroyed = 0) :
    c'.Ledger := by
  by_cases hev : ∀ choice, ev ≠ .submit choice
  · exact h.of_effect (refEffect_of_steps hb hstep hev) (packetFrame_of_steps hstep hev).fault
      halive
  · cases hstep with
    | submit hsub => exact h.submit hs hb hsub hold halive
    | register hsub =>
        cases hsub with
        | insert hpc =>
            have hunreg : c.registered = false := by
              by_contra hne
              have hafter := hs.inserted (by simpa using hne)
              rw [hpc] at hafter
              exact Bool.false_ne_true hafter
            refine h.took _ rfl ?_ (touch_incRef_fault h hold)
            simp only [refs, localRef, overlappedRef, touch, hpc, hunreg, AsyncTask.incRef,
              SubmitPc.ownsTask, Bool.toNat_true, Bool.toNat_false]
            omega
    | _ => exact absurd (fun _ he => by cases he) hev

/-- A call that has not been made. -/
theorem ledger_init : ({} : Call).Ledger :=
  ⟨rfl, rfl, rfl, rfl, rfl, rfl, rfl⟩

/-- The destructions of a task are not undone by any step. -/
theorem le_destroyed_step {c c' : Call} {ev : Event} (hb : c.Built) (hstep : Steps c ev c') :
    c.task.destroyed ≤ c'.task.destroyed := by
  have howner : c.task.destroyed ≤ c.dropOwner.task.destroyed := by
    unfold dropOwner touch
    split
    · split
      · exact AsyncTask.le_destroyed_decRef _
      · exact Nat.le_of_lt (AsyncTask.destroyed_lt_onRefZero _)
    · exact le_rfl
  have hfail : ∀ e p, c.task.destroyed ≤ (c.fail e p).task.destroyed := by
    intro e p
    rw [fail_eq]
    exact howner
  cases hstep with
  | submit hsub =>
      cases hsub with
      | call kind tooBig hpc =>
          have hfresh : c.task = {} := hb.fresh (.inl hpc)
          rw [hfresh]
          exact Nat.zero_le _
      | allocTask ok hpc =>
          have hfresh : c.task = {} := hb.fresh (.inr hpc)
          rw [hfresh]
          exact Nat.zero_le _
      | createSocket ok hpc hkind =>
          rw [createSocket]
          split
          · exact le_rfl
          · exact hfail _ _
      | allocOverlapped ok hpc =>
          rw [Call.allocOverlapped]
          split
          · exact le_rfl
          · exact hfail _ _
      | issue result hpc =>
          rw [Call.issue]
          split <;> exact le_rfl
      | accept ok result hpc hacc => exact le_rfl
      | refuse ok code e hpc hacc he => exact hfail _ _
      | insertFails hpc | giveUp hpc => exact le_rfl
      | unwind hpc =>
          rw [unwind_eq]
          exact howner
      | share hpc => exact le_rfl
      | assignOut hpc => exact le_rfl
      | leave hpc =>
          rw [leave_eq]
          by_cases hk : c.kind = .read
          · simp only [if_pos hk]
            exact AsyncTask.le_destroyed_decRef _
          · simp only [if_neg hk]
            exact le_rfl
      | release hpc href => exact AsyncTask.le_destroyed_decRef _
  | register hsub =>
      cases hsub with
      | insert hpc => exact le_rfl
  | hit sz hp hreg => exact AsyncTask.le_destroyed_decRef _
  | dropOverlappedRef sz hp => exact AsyncTask.le_destroyed_decRef _
  | dropTask sz exits hp => exact AsyncTask.le_destroyed_decRef _
  | dropRaw sz exits hit hp => exact AsyncTask.le_destroyed_decRef _
  | _ => exact le_rfl

/-- What holds of a call in every run: it is sound, its object is built as its program
point says, and until the destructor has run its ledger is balanced. -/
structure Accounted (c : Call) : Prop where
  sound : c.Sound
  exits : c.Exits
  built : c.Built
  ledger : c.task.destroyed = 0 → c.Ledger

/-- **The step lemma of `Accounted`**: every step keeps it. -/
theorem Accounted.step {c c' : Call} {ev : Event} (h : c.Accounted) (hstep : Steps c ev c') :
    c'.Accounted where
  sound := h.sound.step hstep
  exits := h.exits.step h.sound hstep
  built := h.built.step h.sound hstep
  ledger := fun halive => by
    have hle : c.task.destroyed ≤ c'.task.destroyed := le_destroyed_step h.built hstep
    have hold : c.task.destroyed = 0 := by omega
    exact (h.ledger hold).step h.sound h.built hstep hold halive

end Call

/-- **In every run of an operation** its references are accounted for. -/
theorem lifecycle_accounted {H : Call → Event → Prop} {c : Call}
    (h : lifecycle.RunWhere H lifecycle.init c) : c.Accounted := by
  refine h.invariant ⟨?_, ?_, Call.built_init, fun _ => Call.ledger_init⟩
    fun _ _ _ hc _ hs => hc.step (Call.steps_of_after hs)
  · exact Call.sound_init
  · exact (lifecycle_sound (H := H) .refl).2

end Netknot.Win32
