import Netknot.Win32.Delivery
import Netknot.Win32.References

/-!
# The Task a Submit Call Hands Back

A submit call makes its task known to the workers with `postAsyncTask` and takes the
caller's reference two steps later. `readAsync` holds a counted reference of its own all
the while. `writeAsync` and `acceptAsync` hold the task by a `std::unique_ptr` that counts
nothing: when a worker finishes with the packet in between, it drops the last reference
and the submitting thread goes on with a destroyed task. The same owner destroys the task
twice when the call fails with the overlapped block allocated.

## Main results

* `Call.Handing.step`: without these steps the task lives as long as the submitting thread
  or the caller needs it.
* `handed_back`: every task is handed back alive, in runs without these steps.
* `handed_back_destroyed`: a run in which the task comes back destroyed.
-/

namespace Netknot.Win32

/-- **The step condition.** A kernel error after which the call does not count as accepted
is only met in `readAsync`, and its exception can be allocated; when a `writeAsync` or
`acceptAsync` whose insert found no memory runs its deleter, the block does not hold the only
reference; and no worker drops its last reference on the task of a `writeAsync` or `acceptAsync`
between the insert and the caller's reference. -/
def handsBack (c : Call) : Event → Bool
  | .submit (.alloc ok) =>
      match c.pc with
      | .issued (.error code) =>
          Call.countsAsAccepted c.kind (.error code) ||
            (wsaLastErrorToExcept ok code).all fun e => c.kind = .read && e.isSome
      | _ => true
  | .submit .go => c.pc ≠ .unwinding || c.kind = .read || c.task.refCount ≠ 1
  | .handle (.dropRaw _ hit) _ _ => !hit || c.kind = .read || c.pc ≠ .posted
  | _ => true

/-- **The task is handed back alive**: the submitting thread never touched a task whose count
had reached zero, and when the call returned success the task in `asyncTaskOut` is not
destroyed and one count on it is the caller's, until the caller drops it. -/
structure Call.HandedBack (c : Call) : Prop where
  untouched : c.fault = false
  out : c.pc = .returned none → c.asyncTaskOut = true
  alive : c.pc = .returned none → c.released = false →
    c.task.destroyed = 0 ∧ c.callerRef = true ∧ c.task.refCount = c.refs

instance (c : Call) : Decidable c.HandedBack :=
  decidable_of_iff
    (c.fault = false ∧ (c.pc = .returned none → c.asyncTaskOut = true) ∧
      (c.pc = .returned none → c.released = false →
        c.task.destroyed = 0 ∧ c.callerRef = true ∧ c.task.refCount = c.refs))
    ⟨fun ⟨h₁, h₂, h₃⟩ => ⟨h₁, h₂, h₃⟩, fun ⟨h₁, h₂, h₃⟩ => ⟨h₁, h₂, h₃⟩⟩

namespace Call

/-- The submitting thread owns the task or is to, or the caller has not dropped its reference. -/
def needed (c : Call) : Bool :=
  match c.pc with
  | .returned none => !c.released
  | .unwound | .returned (some _) => false
  | _ => true

/-- What holds in runs that meet the step condition. -/
structure Handing (c : Call) : Prop where
  fault : c.fault = false
  alive : c.needed = true → c.task.destroyed = 0
  out : c.pc = .leaving ∨ c.pc = .returned none → c.asyncTaskOut = true
  caller : c.pc.afterShare = true → c.released = false → c.callerRef = true
  released : c.released = true → c.pc = .returned none

/-- A task the block of which was not dropped, and that another party holds, survives a
drop; so does any task with two references. -/
theorem destroyed_decRef {c : Call} (hl : c.Ledger) (hrefs : 2 ≤ c.refs) :
    c.task.decRef.destroyed = c.task.destroyed := by
  rw [AsyncTask.decRef_of_two_le (by rw [hl.count]; exact hrefs)]

/-- A call that has made no caller's reference has not released it. -/
theorem Handing.released_eq_false {c : Call} (h : c.Handing) (hpc : c.pc ≠ .returned none) :
    c.released = false := by
  by_contra hne
  exact hpc (h.released (by simpa using hne))

/-- A step to a program point before `task->incRef(0)`, or on a failing exit, keeps `Handing`
when it makes no fault and leaves a task that is needed alive. -/
theorem Handing.of_beforeShare {c c' : Call} (h : c.Handing) (hpc : c.pc ≠ .returned none)
    (hpc' : c'.pc.afterShare = false) (hreleased : c'.released = c.released)
    (hfault : c'.fault = false) (halive : c'.needed = true → c'.task.destroyed = 0) :
    c'.Handing := by
  refine ⟨hfault, halive, fun ho => ?_, fun hs => ?_, fun hr => ?_⟩
  · rcases ho with ho | ho <;> exact absurd hpc' (by rw [ho]; decide)
  · exact absurd (hpc'.symm.trans hs) Bool.false_ne_true
  · have hrel : c'.released = false := hreleased.trans (h.released_eq_false hpc)
    exact absurd (hrel.symm.trans hr) Bool.false_ne_true

/-- A failing exit keeps `Handing` when dropping the owner makes no fault. -/
theorem Handing.fail {c : Call} (h : c.Handing) (e : Exception) (p : FailPoint)
    (hpc : c.pc ≠ .returned none) (hfault : c.dropOwner.fault = false) :
    (c.fail (some e) p).Handing := by
  rw [fail_eq]
  exact h.of_beforeShare hpc rfl rfl hfault fun hn => absurd hn Bool.false_ne_true

/-- Dropping the owner of a task that has not been allocated makes no fault. -/
theorem dropOwner_fault_unallocated {c : Call} (ha : c.task.allocated = false) :
    c.dropOwner.fault = c.fault := by
  simp [dropOwner, ha]

/-- Dropping the owner of a task without a block makes no fault: the destructor runs once
and there is nothing it could drop. -/
theorem dropOwner_fault_noBlock {c : Call} (hl : c.Ledger) (halive : c.task.destroyed = 0)
    (ha : c.task.allocated = true) (hno : c.task.hasOverlapped = false)
    (hlocal : c.kind = .read → c.refs = 1) : c.dropOwner.fault = false := by
  by_cases hk : c.kind = .read
  · have hone : c.task.refCount = 1 := hl.count.trans (hlocal hk)
    simp [dropOwner, ha, hk, touch, hl.fault, halive,
      AsyncTask.decRef_last_without_overlapped hone hno, AsyncTask.releaseMembers]
  · simp [dropOwner, ha, hk, touch, hl.fault, halive, AsyncTask.onRefZero_without_overlapped hno,
      AsyncTask.releaseMembers]

/-- Dropping the owner of a task on which two parties hold references makes no fault. -/
theorem dropOwner_fault_two {c : Call} (hl : c.Ledger) (halive : c.task.destroyed = 0)
    (ha : c.task.allocated = true) (hover : c.task.hasOverlapped = true)
    (htwo : 2 ≤ c.task.refCount) : c.dropOwner.fault = false := by
  by_cases hk : c.kind = .read
  · simp [dropOwner, ha, hk, touch, hl.fault, halive, AsyncTask.decRef_of_two_le htwo]
  · simp [dropOwner, ha, hk, touch, hl.fault, halive, AsyncTask.onRefZero_of_two_le htwo hover,
      AsyncTask.releaseMembers]

/-- Before the insert the block holds its reference. -/
theorem overlappedRef_of_not_inserted {c : Call} (hs : c.Sound) (hb : c.Built)
    (howns : c.pc.ownsTask = true) (hblock : c.pc.beforeBlock = false)
    (hins : c.pc.afterInsert = false) : c.overlappedRef = true := by
  have hover : c.task.hasOverlapped = true := hb.block howns hblock
  have hunfound : c.packet.found = false := by
    by_contra hne
    exact absurd (hins.symm.trans (hs.found (by simpa using hne))) Bool.false_ne_true
  have hundropped : c.packet.blockDropped = false := by
    revert hunfound
    cases c.packet with
    | held stage => cases stage with
      | dropRaw exits hit => cases hit <;> exact fun hf => hf
      | removed => exact fun _ => rfl
      | _ => exact fun hf => hf
    | _ => exact fun hf => hf
  simp [overlappedRef, hover, hundropped]

/-- Before the block is allocated only `readAsync`'s local `task` can hold a reference. -/
theorem refs_of_beforeBlock {c : Call} (hs : c.Sound) (hb : c.Built)
    (hpc : c.pc = .allocated ∨ c.pc = .socketReady) (hk : c.kind = .read) : c.refs = 1 := by
  have hnoblock : c.task.hasOverlapped = false := hb.noBlock (by
    rcases hpc with hpc | hpc <;> rw [hpc] <;> rfl)
  have hnot : c.packet = .notIssued := hs.notIssued (by
    rcases hpc with hpc | hpc <;> rw [hpc] <;> rfl)
  have hno : c.callerRef = false := hb.callerRef_eq_false (by
    rcases hpc with hpc | hpc <;> rw [hpc] <;> rfl)
  have howns : c.pc.ownsTask = true := by rcases hpc with hpc | hpc <;> rw [hpc] <;> rfl
  have hunreg : c.registered = false := by
    by_contra hne
    have hafter := hs.inserted (by simpa using hne)
    rcases hpc with hpc | hpc <;> rw [hpc] at hafter <;> exact Bool.false_ne_true hafter
  simp [refs, localRef, overlappedRef, hk, howns, hnoblock, hnot, hno, hunreg,
    PacketPhase.rawRef, PacketPhase.taskRef]

/-- The step lemma of `Handing` for the submit call. -/
theorem Handing.submit {c c' : Call} {choice : SubmitChoice} (ha : c.Accounted)
    (h : c.Handing) (hok : handsBack c (.submit choice) = true)
    (hstep : Submits c choice (.next c')) : c'.Handing := by
  obtain ⟨hs, hx, hb, hl⟩ := ha
  cases hstep with
  | call kind tooBig hpc =>
      have hfresh : c.task = {} := hb.fresh (.inl hpc)
      have hkind : ({ c with kind := kind } : Call).Handing :=
        ⟨h.fault, h.alive, h.out, h.caller, h.released⟩
      rw [enter]
      split
      · refine hkind.fail _ _ (by simp [hpc]) ?_
        rw [dropOwner_fault_unallocated (by rw [hfresh])]
        exact h.fault
      · exact h.of_beforeShare (by simp [hpc]) rfl rfl h.fault fun _ => by rw [hfresh]
  | allocTask ok hpc =>
      have hfresh : c.task = {} := hb.fresh (.inr hpc)
      rw [allocTask]
      split
      · refine h.of_beforeShare (by simp [hpc]) rfl rfl h.fault fun _ => ?_
        cases hk : c.kind <;> simp [AsyncTask.incRef]
      · refine h.fail _ _ (by simp [hpc]) ?_
        rw [dropOwner_fault_unallocated (by rw [hfresh])]
        exact h.fault
  | createSocket ok hpc hkind =>
      have halive : c.task.destroyed = 0 := h.alive (by simp [needed, hpc])
      rw [createSocket]
      split
      · exact h.of_beforeShare (by simp [hpc]) rfl rfl h.fault fun _ => halive
      · exact h.fail _ _ (by simp [hpc]) (dropOwner_fault_noBlock (hl halive) halive
          (hb.owned (by rw [hpc]; rfl)) (hb.noBlock (by rw [hpc]; rfl))
          (refs_of_beforeBlock hs hb (.inl hpc)))
  | allocOverlapped ok hpc =>
      have hnot : c.pc ≠ .returned none := by rcases hpc with hpc | hpc <;> simp [hpc]
      have halive : c.task.destroyed = 0 := h.alive (by
        rcases hpc with hpc | hpc <;> simp [needed, hpc])
      have howned : c.task.allocated = true := hb.owned (by
        rcases hpc with hpc | hpc <;> rw [hpc] <;> rfl)
      have hnoblock : c.task.hasOverlapped = false := hb.noBlock (by
        rcases hpc with hpc | hpc <;> rw [hpc] <;> rfl)
      cases ok with
      | true =>
          refine h.of_beforeShare hnot rfl rfl ?_ fun _ => halive
          simp [Call.allocOverlapped, touch, h.fault, halive, AsyncTask.incRef]
      | false =>
          exact h.fail _ _ hnot
            (dropOwner_fault_noBlock (hl halive) halive howned hnoblock
              (refs_of_beforeBlock hs hb hpc))
  | issue result hpc =>
      have halive : c.task.destroyed = 0 := h.alive (by simp [needed, hpc])
      rw [Call.issue]
      split <;> exact h.of_beforeShare (by simp [hpc]) rfl rfl h.fault fun _ => halive
  | accept ok result hpc hacc =>
      have halive : c.task.destroyed = 0 := h.alive (by simp [needed, hpc])
      exact h.of_beforeShare (by simp [hpc]) rfl rfl h.fault fun _ => halive
  | refuse ok code e hpc hacc he =>
      have halive : c.task.destroyed = 0 := h.alive (by simp [needed, hpc])
      have hcond : c.kind = .read ∧ e.isSome = true := by
        simpa [handsBack, hpc, hacc, he] using hok
      obtain ⟨hk, hsome⟩ := hcond
      obtain ⟨e, rfl⟩ := Option.isSome_iff_exists.mp hsome
      have howns : c.pc.ownsTask = true := by rw [hpc]; rfl
      have hover : c.overlappedRef = true :=
        overlappedRef_of_not_inserted hs hb howns (by rw [hpc]; rfl) (by rw [hpc]; rfl)
      have htwo : 2 ≤ c.task.refCount := by
        rw [(hl halive).count]
        exact two_le_refs_of_read hk howns (.inl hover)
      exact h.fail e _ (by simp [hpc]) (dropOwner_fault_two (hl halive) halive
        (hb.owned howns) (hb.block howns (by rw [hpc]; rfl)) htwo)
  | insertFails hpc =>
      have halive : c.task.destroyed = 0 := h.alive (by simp [needed, hpc])
      exact h.of_beforeShare (by simp [hpc]) rfl rfl h.fault fun _ => halive
  | unwind hpc =>
      have halive : c.task.destroyed = 0 := h.alive (by simp [needed, hpc])
      have howns : c.pc.ownsTask = true := by rw [hpc]; rfl
      have hover : c.overlappedRef = true :=
        overlappedRef_of_not_inserted hs hb howns (by rw [hpc]; rfl) (by rw [hpc]; rfl)
      have hcount : c.task.refCount = c.refs := (hl halive).count
      have htwo : 2 ≤ c.task.refCount := by
        have hcond : c.kind = .read ∨ c.task.refCount ≠ 1 := by
          simpa [handsBack, hpc] using hok
        rcases hcond with hk | hne
        · rw [hcount]
          exact two_le_refs_of_read hk howns (.inl hover)
        · have hpos : 1 ≤ c.task.refCount := by
            rw [hcount, refs, hover, Bool.toNat_true]
            omega
          omega
      rw [unwind_eq]
      refine h.of_beforeShare (by simp [hpc]) rfl rfl ?_ fun hn => absurd hn Bool.false_ne_true
      exact dropOwner_fault_two (hl halive) halive (hb.owned howns)
        (hb.block howns (by rw [hpc]; rfl)) htwo
  | giveUp hpc =>
      exact h.of_beforeShare (by simp [hpc]) rfl rfl h.fault fun hn => absurd hn Bool.false_ne_true
  | share hpc =>
      have hrel : c.released = false := h.released_eq_false (by simp [hpc])
      have halive : c.task.destroyed = 0 := h.alive (by simp [needed, hpc])
      exact ⟨touch_incRef_fault (hl halive) halive, fun _ => halive,
        fun ho => absurd ho (by simp [Call.share]), fun _ _ => rfl,
        fun hr => absurd (hrel.symm.trans hr) (by decide)⟩
  | assignOut hpc =>
      have hrel : c.released = false := h.released_eq_false (by simp [hpc])
      have halive : c.task.destroyed = 0 := h.alive (by simp [needed, hpc])
      exact ⟨h.fault, fun _ => halive, fun _ => rfl,
        fun _ => h.caller (by rw [hpc]; rfl), fun hr => absurd (hrel.symm.trans hr) (by decide)⟩
  | leave hpc =>
      have hrel : c.released = false := h.released_eq_false (by simp [hpc])
      have halive : c.task.destroyed = 0 := h.alive (by simp [needed, hpc])
      have hcaller : c.callerRef = true := h.caller (by rw [hpc]; rfl) hrel
      have hout : c.asyncTaskOut = true := h.out (.inl hpc)
      rw [leave_eq]
      by_cases hk : c.kind = .read
      · have htwo : 2 ≤ c.refs :=
          two_le_refs_of_read hk (by rw [hpc]; rfl) (.inr (.inl hcaller))
        have hdestroyed : c.task.decRef.destroyed = 0 := by
          rw [destroyed_decRef (hl halive) htwo, halive]
        simp only [if_pos hk]
        exact ⟨touch_decRef_fault (hl halive) (by omega) hdestroyed, fun _ => hdestroyed,
          fun _ => hout, fun _ _ => hcaller, fun _ => rfl⟩
      · simp only [if_neg hk]
        exact ⟨h.fault, fun _ => halive, fun _ => hout, fun _ _ => hcaller, fun _ => rfl⟩
  | release hpc href =>
      refine ⟨h.fault, fun hn => ?_, fun _ => h.out (.inr hpc), fun _ hr => ?_, fun _ => hpc⟩
      · simp [needed, hpc] at hn
      · exact absurd hr (by simp)

/-- A step of the kernel or of a worker keeps `Handing` when a task that is needed
survives it. -/
theorem Handing.of_packet {c c' : Call} (h : c.Handing) (hframe : PacketFrame c c')
    (halive : c.needed = true → c'.task.destroyed = c.task.destroyed) : c'.Handing where
  fault := hframe.fault.trans h.fault
  alive := fun hn => by
    have hn' : c.needed = true := by
      rw [needed, hframe.pc, hframe.released] at hn
      exact hn
    rw [halive hn']
    exact h.alive hn'
  out := fun ho => hframe.asyncTaskOut.trans (h.out (hframe.pc ▸ ho))
  caller := fun hs hr =>
    hframe.callerRef.trans (h.caller (hframe.pc ▸ hs) (hframe.released ▸ hr))
  released := fun hr => by
    rw [hframe.pc]
    exact h.released (hframe.released ▸ hr)

/-- The last reference of a worker that found the task is not the last one on a task that
is still needed. -/
theorem two_le_refs_dropRaw {c : Call} {exits hit : Bool} (hs : c.Sound) (hb : c.Built)
    (h : c.Handing) (hp : c.packet = .held (.dropRaw exits hit)) (hn : c.needed = true)
    (hcond : hit = true → c.kind = .read ∨ c.pc ≠ .posted) : 2 ≤ c.refs := by
  have hraw : c.packet.rawRef = true := by rw [hp]; rfl
  cases hit with
  | false =>
      have hover : c.overlappedRef = true := by
        simp [overlappedRef, hb.issued (by simp [hp]), hp, PacketPhase.blockDropped]
      rw [refs, hover, hraw, Bool.toNat_true]
      omega
  | true =>
      have hafter : c.pc.afterInsert = true := hs.found (by rw [hp]; rfl)
      by_cases hshare : c.pc.afterShare = true
      · have hrel : c.released = false := by
          cases hpc : c.pc with
          | returned e =>
              cases e with
              | none => simpa [needed, hpc] using hn
              | some e => simp [needed, hpc] at hn
          | _ => exact h.released_eq_false (by simp [hpc])
        have hcaller : c.callerRef = true := h.caller hshare hrel
        rw [refs, hcaller, hraw, Bool.toNat_true]
        omega
      · have hposted : c.pc = .posted := by
          cases hpc : c.pc with
          | posted => rfl
          | returned e =>
              rw [hpc] at hafter hshare
              cases e with
              | none => exact absurd rfl hshare
              | some e => exact absurd hafter Bool.false_ne_true
          | _ =>
              rw [hpc] at hafter hshare
              first | exact absurd hafter Bool.false_ne_true | exact absurd rfl hshare
        have hk : c.kind = .read := (hcond rfl).resolve_right fun hne => hne hposted
        exact two_le_refs_of_read hk (by rw [hposted]; rfl) (.inr (.inr hraw))

/-- A task that is needed survives a step of the kernel or of a worker that meets the
condition. -/
theorem Handing.survives {c c' : Call} {ev : Event} (ha : c.Accounted) (h : c.Handing)
    (hok : handsBack c ev = true) (hstep : Steps c ev c') (hev : ∀ choice, ev ≠ .submit choice)
    (hn : c.needed = true) : c'.task.destroyed = c.task.destroyed := by
  have hl : c.Ledger := ha.ledger (h.alive hn)
  cases hstep with
  | submit hsub => exact absurd rfl (hev _)
  | register hsub => exact absurd rfl (hev _)
  | complete hp => rfl
  | completeFailed hp => rfl
  | dequeue hp => rfl
  | takeFailed hp => rfl
  | holdRaw sz hp => rfl
  | hit sz hp hreg =>
      have hraw : c.packet.rawRef = true := by rw [hp]; rfl
      refine destroyed_decRef hl ?_
      rw [refs, hreg, hraw, Bool.toNat_true]
      omega
  | miss sz hp hreg => rfl
  | dropOverlappedRef sz hp =>
      have hraw : c.packet.rawRef = true := by rw [hp]; rfl
      have hover : c.overlappedRef = true := by
        simp [overlappedRef, ha.built.issued (by simp [hp]), hp, PacketPhase.blockDropped,
          Stage.hasTask]
      refine destroyed_decRef hl ?_
      rw [refs, hover, hraw, Bool.toNat_true]
      omega
  | addTransferred sz hp | setDone sz hp | invoke sz hp => rfl
  | stays sz hp hin hin' => rfl
  | dropTask sz exits hp =>
      have hraw : c.packet.rawRef = true := by rw [hp]; rfl
      have htask : c.packet.taskRef = true := by rw [hp]; rfl
      refine destroyed_decRef hl ?_
      rw [refs, hraw, htask, Bool.toNat_true]
      omega
  | dropRaw sz exits hit hp =>
      refine destroyed_decRef hl
        (two_le_refs_dropRaw ha.sound ha.built h hp hn fun hhit => ?_)
      simpa [handsBack, hhit] using hok

/-- **The step lemma.** A step that meets the condition keeps `Handing`. -/
theorem Handing.step {c c' : Call} {ev : Event} (ha : c.Accounted) (h : c.Handing)
    (hok : handsBack c ev = true) (hstep : Steps c ev c') : c'.Handing := by
  by_cases hev : ∀ choice, ev ≠ .submit choice
  · exact h.of_packet (packetFrame_of_steps hstep hev) (h.survives ha hok hstep hev)
  · cases hstep with
    | submit hsub => exact h.submit ha hok hsub
    | register hsub =>
        cases hsub with
        | insert hpc =>
            have halive : c.task.destroyed = 0 := h.alive (by simp [needed, hpc])
            exact h.of_beforeShare (by simp [hpc]) rfl rfl
              (touch_incRef_fault (ha.ledger halive) halive) fun _ => halive
    | _ => exact absurd (fun _ he => by cases he) hev

/-- `Handing` and the ledger give `HandedBack`. -/
theorem Handing.handedBack {c : Call} (ha : c.Accounted) (h : c.Handing) : c.HandedBack where
  untouched := h.fault
  out := fun hpc => h.out (.inr hpc)
  alive := fun hpc hr => by
    have halive : c.task.destroyed = 0 := h.alive (by simp [needed, hpc, hr])
    exact ⟨halive, h.caller (by rw [hpc]; rfl) hr, (ha.ledger halive).count⟩

/-- A call that has not been made satisfies `Handing`. -/
theorem handing_init : ({} : Call).Handing :=
  ⟨rfl, fun _ => rfl, fun ho => by simp at ho, fun hs => absurd hs Bool.false_ne_true,
    fun hr => absurd hr Bool.false_ne_true⟩

end Call

/-- In a run of an operation that meets the step condition its task is handed back. -/
theorem lifecycle_handing {c : Call}
    (h : lifecycle.RunWhere (fun c ev => handsBack c ev = true) lifecycle.init c) :
    c.Accounted ∧ c.Handing := by
  refine h.invariant (I := fun c => c.Accounted ∧ c.Handing)
    ⟨lifecycle_accounted (H := fun _ _ => True) .refl, Call.handing_init⟩ ?_
  rintro c ev c' ⟨ha, hh⟩ hok hstep
  have hsteps := Call.steps_of_after hstep
  exact ⟨ha.step hsteps, hh.step ha hok hsteps⟩

/-- **The task handed back is alive**, for each of the three submit calls and any
interleaving with any number of workers, in every run whose steps about the operation
meet the condition. -/
theorem handed_back {n : ℕ} {s : State n} {o : OpId}
    (h : (service n).RunWhere (State.OnCall o fun c ev => handsBack c ev = true)
      (service n).init s) : (s.calls o).HandedBack := by
  obtain ⟨ha, hh⟩ := lifecycle_handing (service_life h)
  exact hh.handedBack ha

/-! ### Concrete runs -/

/-- A write whose worker starts while the call runs and ends after it returned is handed back. -/
theorem handed_back_write :
    ∃ s : State 1, ((s.calls 0).pc = .returned none ∧ (s.calls 0).packet = .delivered) ∧
      (s.calls 0).HandedBack := by
  obtain ⟨s, hrun, hs⟩ := Machine.exists_runWhere (M := service 1)
    (G := State.OnCall 0 fun c ev => handsBack c ev = true) (s := (service 1).init)
    (P := fun s => (s.calls 0).pc = .returned none ∧ (s.calls 0).packet = .delivered)
    (startUp ++ submitUpToIssue .write ++ submitUpToInsert ++ reachesCallback ++
      submitUpToReturn ++ leavesCallback) (by decide)
  exact ⟨s, hs, handed_back hrun⟩

/-- **A destroyed task is handed back**: the worker is done with the packet of a write
before the writing thread takes the caller's reference. -/
theorem handed_back_destroyed :
    ¬∀ (n : ℕ) (s : State n), (service n).Reachable s → ∀ o, (s.calls o).HandedBack := by
  intro h
  obtain ⟨s, hrun, hs⟩ := Machine.exists_runWhere (M := service 1) (G := fun _ _ => True)
    (s := (service 1).init) (P := fun s => ¬(s.calls 0).HandedBack)
    (startUp ++ submitUpToIssue .write ++ submitUpToInsert ++ handlesPacket ++
      submitUpToReturn) (by decide)
  exact hs (h 1 s hrun 0)

end Netknot.Win32
