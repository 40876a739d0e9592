import Netknot.Win32.Handback

/-!
# The Whole Life of a Task

The life of a successfully submitted task whose packet is taken after its submit call
returned. Up to its end the books balance: the count is the number of parties that hold a
reference, whatever the order in which the caller releases and the worker goes on. The end
itself does not balance. The worker drops the reference of the overlapped block with
`rawTask->decRef(0)`; when the last reference goes, the destructor releases the block, and
`releaseOverlapped` drops the reference of the block a second time, from a count of zero.

## Main results

* `Call.Life.step`: while a party is left nothing was destroyed, and when none is left the
  destructor ran once and one reference too many was dropped.
* `life_accounted_iff`: the accounting holds exactly as long as a party is left.
* `life_underflow`: a complete life, with its decrement from zero.
-/

namespace Netknot.Win32

/-- **The step condition**, an assumption on the order: the success packet is taken only
after the submit call returned success. -/
def takenAfterReturn (c : Call) : Event → Bool
  | .dequeue => c.pc = .returned none
  | _ => true

namespace Call

/-- **The accounting** of one task: no reference was dropped from a count of zero; if
the task was destroyed, as many references were dropped as were taken; and it was destroyed
exactly once when no party holds a reference any more, and not before. -/
structure LifeAccounted (c : Call) : Prop where
  neverBelowZero : c.task.decRefAtZero = 0
  balanced : 0 < c.task.destroyed → c.task.taken = c.task.dropped
  onceAtTheEnd : c.task.destroyed = if c.refs = 0 then 1 else 0

/-- The packet has not been taken by a worker that looks the task up. -/
def untaken (c : Call) : Bool :=
  match c.packet with
  | .held _ | .delivered | .discarded => false
  | _ => true

/-- The end of a life: the caller released, the worker is done, the destructor ran once and
released the block once, and one reference too many was dropped, from a count of zero. -/
structure Over (c : Call) : Prop where
  callerRef : c.callerRef = false
  packet : c.packet = .delivered
  destroyed : c.task.destroyed = 1
  overlappedReleased : c.task.overlappedReleased = 1
  decRefAtZero : c.task.decRefAtZero = 1
  dropped : c.task.dropped = c.task.taken + 1

/-- What holds of the life of a task in runs that meet the step condition. -/
structure Life (c : Call) : Prop where
  /-- Before the call returns no worker has the packet, and the task lives, unless it fails. -/
  early : c.pc.failed = false ∧ c.pc ≠ .returned none → c.untaken = true ∧ c.task.destroyed = 0
  out : c.asyncTaskOut = true → (c.pc = .leaving ∨ c.pc = .returned none) ∧ c.failPoint = none
  /-- After it returned success the task lives and a party is left, or its life is over. -/
  late : c.pc = .returned none → c.asyncTaskOut = true →
    (c.task.destroyed = 0 ∧ 1 ≤ c.refs) ∨ c.Over

/-- While a packet has not been taken, the block has its reference and the worker has none. -/
theorem refs_of_untaken {c : Call} (h : c.untaken = true) :
    c.packet.blockDropped = false ∧ c.packet.rawRef = false ∧ c.packet.taskRef = false := by
  revert h
  rw [untaken]
  cases c.packet with
  | held stage => exact fun h => absurd h Bool.false_ne_true
  | delivered => exact fun h => absurd h Bool.false_ne_true
  | discarded => exact fun h => absurd h Bool.false_ne_true
  | _ => exact fun _ => ⟨rfl, rfl, rfl⟩

/-- Nobody is left: the caller released and the worker is done with a packet it found the
task for. -/
theorem refs_eq_zero_iff {c : Call} (hb : c.Built) (hx : c.Counted)
    (hpc : c.pc = .returned none) (hfail : c.failPoint = none) :
    c.refs = 0 ↔ c.callerRef = false ∧ c.packet = .delivered := by
  have hover : c.task.hasOverlapped = true := hb.handed hpc
  have hlocal : c.localRef = false := by simp [localRef, hpc]
  have hreg : c.registered = !c.packet.found := hx.inserted (by rw [hpc]; rfl) hfail
  have hiff : c.refs = 0 ↔ c.callerRef = false ∧ (c.packet.blockDropped = true ∧
      c.registered = false ∧ c.packet.rawRef = false ∧ c.packet.taskRef = false) := by
    cases hd : c.packet.blockDropped <;> cases hr : c.registered <;> cases hc : c.callerRef <;>
      cases hw : c.packet.rawRef <;> cases ht : c.packet.taskRef <;>
      simp [refs, hlocal, overlappedRef, hover, hd, hr, hc, hw, ht]
  rw [hiff, hreg]
  refine and_congr_right fun _ => ⟨fun hleft => ?_, fun hp => ?_⟩
  · obtain ⟨hd, hf, hr, -⟩ := hleft
    revert hd hf hr
    cases c.packet with
    | held stage => cases stage with
      | dropRaw exits hit => exact fun _ _ hr => absurd hr (by simp [PacketPhase.rawRef])
      | dequeued => exact fun hd => absurd hd (by simp [PacketPhase.blockDropped, Stage.hasTask])
      | _ => exact fun _ _ hr => absurd hr (by simp [PacketPhase.rawRef])
    | delivered => exact fun _ _ _ => rfl
    | _ => exact fun hd => absurd hd (by simp [PacketPhase.blockDropped])
  · rw [hp]
    exact ⟨rfl, rfl, rfl, rfl⟩

/-- **The last drop.** A drop on a living task with a block leaves a party, or it ends the
life: the destructor runs once, and the block it releases drops one reference more, from a
count of zero. -/
theorem late_of_drop {c c' : Call} (hl : c.Ledger) (hold : c.task.destroyed = 0)
    (hover : c.task.hasOverlapped = true) (htask : c'.task = c.task.decRef)
    (hrefs : c'.refs + 1 = c.refs)
    (hend : c'.refs = 0 → c'.callerRef = false ∧ c'.packet = .delivered) :
    (c'.task.destroyed = 0 ∧ 1 ≤ c'.refs) ∨ c'.Over := by
  by_cases htwo : 2 ≤ c.refs
  · refine .inl ⟨?_, by omega⟩
    rw [htask, destroyed_decRef hl htwo, hold]
  · have hone : c.task.refCount = 1 := by
      rw [hl.count]
      omega
    obtain ⟨hcaller, hpacket⟩ := hend (by omega)
    have hbalance : c.task.taken = c.task.dropped + c.task.refCount := hl.balance
    have hlast := AsyncTask.decRef_last hone hover
    refine .inr ⟨hcaller, hpacket, ?_, ?_, ?_, ?_⟩
    · rw [htask, hlast]
      simp [AsyncTask.releaseMembers, hold]
    · rw [htask, hlast]
      simp [AsyncTask.releaseMembers, hl.overlappedReleased]
    · rw [htask, hlast]
      simp [AsyncTask.releaseMembers, hl.decRefAtZero]
    · rw [htask, hlast]
      simp only [AsyncTask.releaseMembers]
      omega

/-- **Any effect** on a task with a party left leaves a party, or ends the life. -/
theorem late_of_effect {c c' : Call} (hl : c.Ledger) (hold : c.task.destroyed = 0)
    (hrefs : 1 ≤ c.refs) (hover : c.task.hasOverlapped = true) (heff : RefEffect c c')
    (hend : c'.refs = 0 → c'.callerRef = false ∧ c'.packet = .delivered) :
    (c'.task.destroyed = 0 ∧ 1 ≤ c'.refs) ∨ c'.Over := by
  cases heff with
  | keeps status htask hr => exact .inl ⟨by rw [htask, hold], by omega⟩
  | takes sz htask hr => exact .inl ⟨by rw [htask]; exact hold, by omega⟩
  | drops htask hr => exact late_of_drop hl hold hover htask hr hend

/-- A life that is over takes no more steps of the kernel or of a worker, nor of the caller. -/
theorem Over.no_step {c c' : Call} {ev : Event} (h : c.Over) (hpc : c.pc = .returned none)
    (hstep : Steps c ev c') : False := by
  have hp := h.packet
  cases hstep with
  | submit hsub =>
      cases hsub with
      | release hpc' href => exact absurd (h.callerRef.symm.trans href) Bool.false_ne_true
      | allocOverlapped ok hpc' => rcases hpc' with hpc' | hpc' <;> simp [hpc] at hpc'
      | _ => simp_all
  | register hsub =>
      cases hsub with
      | insert hpc' => simp [hpc] at hpc'
  | _ => simp_all

/-- A step on a failing exit keeps `Life`: nothing came out of it. -/
theorem Life.ended {c c' : Call} (h : c.Life) (hpc : ∀ e, c.pc ≠ .returned e)
    (hleaving : c.pc ≠ .leaving) (hpc' : c'.pc.failed = true ∨ c'.pc = .returned none)
    (hsame : c'.asyncTaskOut = c.asyncTaskOut) : c'.Life := by
  have hout : c'.asyncTaskOut = false := by
    rw [hsame]
    by_contra hne
    obtain ⟨ho | ho, -⟩ := h.out (by simpa using hne)
    · exact hleaving ho
    · exact hpc none ho
  refine ⟨fun ⟨hrunning, hnull⟩ => ?_, fun ho => ?_, fun _ ho => ?_⟩
  · rcases hpc' with hfailed | hnone
    · exact absurd (hrunning.symm.trans hfailed) Bool.false_ne_true
    · exact absurd hnone hnull
  · exact absurd (hout.symm.trans ho) Bool.false_ne_true
  · exact absurd (hout.symm.trans ho) Bool.false_ne_true

/-- A failing exit keeps `Life`. -/
theorem Life.fail {c : Call} (h : c.Life) (e : ExceptionPointer) (p : FailPoint)
    (hpc : ∀ e, c.pc ≠ .returned e) (hleaving : c.pc ≠ .leaving) : (c.fail e p).Life := by
  refine h.ended hpc hleaving ?_ (by rw [fail_eq])
  rw [fail_eq]
  cases e with
  | none => exact .inr rfl
  | some e => exact .inl rfl

/-- A step of the submit call before the return that does not fail keeps `Life` when it
leaves the packet untaken and the task alive. -/
theorem Life.running {c c' : Call} (h : c.Life) (hpc : ∀ e, c.pc ≠ .returned e)
    (hleaving : c.pc ≠ .leaving) (hpc' : c'.pc ≠ .returned none)
    (hout : c'.asyncTaskOut = c.asyncTaskOut) (huntaken : c'.untaken = true)
    (halive : c'.task.destroyed = 0) : c'.Life := by
  have hno : c.asyncTaskOut = false := by
    by_contra hne
    obtain ⟨ho | ho, -⟩ := h.out (by simpa using hne)
    · exact hleaving ho
    · exact hpc none ho
  refine ⟨fun _ => ⟨huntaken, halive⟩, fun ho => ?_, fun hp => absurd hp hpc'⟩
  exact absurd ((hout.trans hno).symm.trans ho) Bool.false_ne_true

/-- After an effect on a task that came back with the return a party is left, or the life
is over. -/
theorem Life.late_of_effect {c c' : Call} (ha : c.Accounted) (hb' : c'.Built)
    (hx' : c'.Counted) (h : c.Life) (hpc : c.pc = .returned none)
    (hpc' : c'.pc = .returned none) (hout : c.asyncTaskOut = true) (hover : ¬c.Over)
    (hfail : c'.failPoint = c.failPoint) (heff : RefEffect c c') :
    (c'.task.destroyed = 0 ∧ 1 ≤ c'.refs) ∨ c'.Over := by
  obtain ⟨hold, hrefs⟩ := (h.late hpc hout).resolve_right hover
  have hnofail : c'.failPoint = none := hfail.trans (h.out hout).2
  exact Call.late_of_effect (ha.ledger hold) hold hrefs (ha.built.handed hpc) heff
    (refs_eq_zero_iff hb' hx' hpc' hnofail).mp

/-- The step lemma of `Life` for the submit call. -/
theorem Life.submit {c c' : Call} {choice : SubmitChoice} (ha : c.Accounted) (hb' : c'.Built)
    (hx' : c'.Counted) (h : c.Life) (hstep : Submits c choice (.next c')) : c'.Life := by
  obtain ⟨hs, hexit, hb, hl⟩ := ha
  cases hstep with
  | call kind tooBig hpc =>
      obtain ⟨huntaken, halive⟩ := h.early (by simp [hpc, SubmitPc.failed])
      have hkind : ({ c with kind := kind } : Call).Life := by
        refine ⟨fun _ => ⟨huntaken, halive⟩, h.out, fun hp => ?_⟩
        exact absurd (hpc.symm.trans hp) (by simp)
      rw [enter]
      split
      · exact hkind.fail _ _ (by simp [hpc]) (by simp [hpc])
      · exact h.running (by simp [hpc]) (by simp [hpc]) (by simp) rfl huntaken halive
  | allocTask ok hpc =>
      obtain ⟨huntaken, halive⟩ := h.early (by simp [hpc, SubmitPc.failed])
      rw [allocTask]
      split
      · refine h.running (by simp [hpc]) (by simp [hpc]) (by simp) rfl huntaken ?_
        cases hk : c.kind <;> simp [AsyncTask.incRef]
      · exact h.fail _ _ (by simp [hpc]) (by simp [hpc])
  | createSocket ok hpc hkind =>
      obtain ⟨huntaken, halive⟩ := h.early (by simp [hpc, SubmitPc.failed])
      rw [createSocket]
      split
      · exact h.running (by simp [hpc]) (by simp [hpc]) (by simp) rfl huntaken halive
      · exact h.fail _ _ (by simp [hpc]) (by simp [hpc])
  | allocOverlapped ok hpc =>
      have hpc' : (∀ e, c.pc ≠ .returned e) ∧ c.pc ≠ .leaving := by
        rcases hpc with hpc | hpc <;> simp [hpc]
      obtain ⟨huntaken, halive⟩ := h.early (by
        rcases hpc with hpc | hpc <;> simp [hpc, SubmitPc.failed])
      rw [allocOverlapped]
      split
      · exact h.running hpc'.1 hpc'.2 (by simp) rfl huntaken halive
      · exact h.fail _ _ hpc'.1 hpc'.2
  | issue result hpc =>
      obtain ⟨huntaken, halive⟩ := h.early (by simp [hpc, SubmitPc.failed])
      rw [Call.issue]
      split
      · exact h.running (by simp [hpc]) (by simp [hpc]) (by simp) rfl rfl halive
      · exact h.running (by simp [hpc]) (by simp [hpc]) (by simp) rfl huntaken halive
  | accept ok result hpc hacc =>
      obtain ⟨huntaken, halive⟩ := h.early (by simp [hpc, SubmitPc.failed])
      exact h.running (by simp [hpc]) (by simp [hpc]) (by simp) rfl huntaken halive
  | refuse ok code e hpc hacc he => exact h.fail _ _ (by simp [hpc]) (by simp [hpc])
  | insertFails hpc | giveUp hpc => exact h.ended (by simp [hpc]) (by simp [hpc]) (.inl rfl) rfl
  | unwind hpc =>
      rw [unwind_eq]
      exact h.ended (by simp [hpc]) (by simp [hpc]) (.inl rfl) rfl
  | share hpc =>
      obtain ⟨huntaken, halive⟩ := h.early (by simp [hpc, SubmitPc.failed])
      exact h.running (by simp [hpc]) (by simp [hpc]) (by simp [Call.share]) rfl huntaken halive
  | assignOut hpc =>
      obtain ⟨huntaken, halive⟩ := h.early (by simp [hpc, SubmitPc.failed])
      have hnofail : c.failPoint = none := hexit.failPoint_eq_none (by simp [hpc])
      exact ⟨fun _ => ⟨huntaken, halive⟩, fun _ => ⟨.inl rfl, hnofail⟩,
        fun hp => absurd hp (by simp [Call.assignOut])⟩
  | leave hpc =>
      obtain ⟨huntaken, halive⟩ := h.early (by simp [hpc, SubmitPc.failed])
      have hover : c.overlappedRef = true := by
        simp [overlappedRef, hb.block (by rw [hpc]; rfl) (by rw [hpc]; rfl),
          (refs_of_untaken huntaken).1]
      rw [leave_eq]
      have hnofail : c.failPoint = none := hexit.failPoint_eq_none (by simp [hpc])
      refine ⟨fun hne => absurd rfl hne.2, fun _ => ⟨.inr rfl, hnofail⟩, fun _ _ => .inl ?_⟩
      by_cases hk : c.kind = .read
      · have htwo : 2 ≤ c.refs := two_le_refs_of_read hk (by rw [hpc]; rfl) (.inl hover)
        have hover' : c.task.decRef.hasOverlapped = c.task.hasOverlapped :=
          (AsyncTask.sameObject_decRef c.task).hasOverlapped
        simp only [if_pos hk]
        refine ⟨by rw [destroyed_decRef (hl halive) htwo, halive], ?_⟩
        rw [overlappedRef] at hover
        simp only [refs, overlappedRef, hover', hover, Bool.toNat_true]
        omega
      · simp only [if_neg hk]
        refine ⟨halive, ?_⟩
        rw [overlappedRef] at hover
        simp only [refs, overlappedRef, hover, Bool.toNat_true]
        omega
  | release hpc href =>
      refine ⟨fun hne => absurd hpc hne.2, h.out, fun _ hout => ?_⟩
      have hover : ¬c.Over := fun ho =>
        absurd (ho.callerRef.symm.trans href) Bool.false_ne_true
      exact h.late_of_effect ⟨hs, hexit, hb, hl⟩ hb' hx' hpc hpc hout hover rfl
        (refEffect_release href)

/-- **The step lemma.** A step that meets the condition keeps `Life`. -/
theorem Life.step {c c' : Call} {ev : Event} (ha : c.Accounted) (hb' : c'.Built)
    (hx' : c'.Counted) (h : c.Life) (hok : takenAfterReturn c ev = true)
    (hstep : Steps c ev c') : c'.Life := by
  by_cases hev : ∀ choice, ev ≠ .submit choice
  · have hf : PacketFrame c c' := packetFrame_of_steps hstep hev
    refine ⟨fun hpc => ?_, fun hout => ?_, fun hpc hout => ?_⟩
    · rw [hf.pc] at hpc
      obtain ⟨huntaken, halive⟩ := h.early hpc
      cases hstep with
      | complete hp => exact ⟨rfl, halive⟩
      | completeFailed hp => exact ⟨rfl, halive⟩
      | takeFailed hp => exact ⟨rfl, halive⟩
      | dequeue hp => exact absurd (by simpa [takenAfterReturn] using hok) hpc.2
      | submit hsub => exact absurd rfl (hev _)
      | register hsub => exact absurd rfl (hev _)
      | _ => simp_all [untaken]
    · rw [hf.asyncTaskOut] at hout
      rw [hf.pc, hf.failPoint]
      exact h.out hout
    · have hpc' : c.pc = .returned none := hf.pc ▸ hpc
      have hout' : c.asyncTaskOut = true := hf.asyncTaskOut ▸ hout
      have hover : ¬c.Over := fun ho => ho.no_step hpc' hstep
      exact h.late_of_effect ha hb' hx' hpc' hpc hout' hover hf.failPoint
        (refEffect_of_steps ha.built hstep hev)
  · cases hstep with
    | submit hsub => exact h.submit ha hb' hx' hsub
    | register hsub =>
        cases hsub with
        | insert hpc =>
            obtain ⟨huntaken, halive⟩ := h.early (by simp [hpc, SubmitPc.failed])
            exact h.running (by simp [hpc]) (by simp [hpc]) (by simp) rfl huntaken halive
    | _ => exact absurd (fun _ he => by cases he) hev

/-- A call that has not been made satisfies `Life`. -/
theorem life_init : ({} : Call).Life :=
  ⟨fun _ => ⟨rfl, rfl⟩, fun ho => absurd ho Bool.false_ne_true, fun hp => by cases hp⟩

/-- **The books balance exactly as long as a party is left.** -/
theorem Life.lifeAccounted_iff {c : Call} (ha : c.Accounted) (hx : c.Counted) (h : c.Life)
    (hpc : c.pc = .returned none) (hout : c.asyncTaskOut = true) :
    c.LifeAccounted ↔ c.callerRef = true ∨ c.packet ≠ .delivered := by
  have hzero : c.refs = 0 ↔ c.callerRef = false ∧ c.packet = .delivered :=
    refs_eq_zero_iff ha.built hx hpc (h.out hout).2
  rcases h.late hpc hout with ⟨halive, hrefs⟩ | hover
  · have hl : c.Ledger := ha.ledger halive
    have hne : ¬c.refs = 0 := by omega
    have hsome : c.callerRef = true ∨ c.packet ≠ .delivered := by
      by_contra hnone
      push Not at hnone
      exact hne (hzero.mpr ⟨by simpa using hnone.1, hnone.2⟩)
    refine iff_of_true ⟨hl.decRefAtZero, fun hd => ?_, ?_⟩ hsome
    · omega
    · rw [if_neg hne, halive]
  · refine iff_of_false (fun hacc => ?_) ?_
    · have hone : c.task.decRefAtZero = 1 := hover.decRefAtZero
      exact absurd (hone.symm.trans hacc.neverBelowZero) Nat.one_ne_zero
    · rintro (hcaller | hpacket)
      · exact Bool.false_ne_true (hover.callerRef.symm.trans hcaller)
      · exact hpacket hover.packet

end Call

/-- In a run of an operation whose packet is taken after the return its life is one. -/
theorem lifecycle_life {c : Call}
    (h : lifecycle.RunWhere (fun c ev => takenAfterReturn c ev = true) lifecycle.init c) :
    (c.Accounted ∧ c.Counted) ∧ c.Life := by
  refine h.invariant (I := fun c => (c.Accounted ∧ c.Counted) ∧ c.Life)
    ⟨⟨lifecycle_accounted (H := fun _ _ => True) .refl,
      (lifecycle_counted (H := fun _ _ => True) .refl).2⟩, Call.life_init⟩ ?_
  rintro c ev c' ⟨⟨ha, hx⟩, hl⟩ hok hstep
  have hsteps := Call.steps_of_after hstep
  have ha' : c'.Accounted := ha.step hsteps
  have hx' : c'.Counted := hx.step ha.sound hsteps
  exact ⟨⟨ha', hx'⟩, hl.step ha ha'.built hx' hok hsteps⟩

/-- **The accounting over a whole life**, for each of the three kinds of task and every
order of the caller's release and the worker's steps: it is right exactly as long as the
caller has not released or the worker is not done. -/
theorem life_accounted_iff {n : ℕ} {s : State n} {o : OpId}
    (h : (service n).RunWhere (State.OnCall o fun c ev => takenAfterReturn c ev = true)
      (service n).init s)
    (hpc : (s.calls o).pc = .returned none) (hout : (s.calls o).asyncTaskOut = true) :
    (s.calls o).LifeAccounted ↔
      (s.calls o).callerRef = true ∨ (s.calls o).packet ≠ .delivered := by
  obtain ⟨⟨ha, hx⟩, hl⟩ := lifecycle_life (service_life h)
  exact hl.lifeAccounted_iff ha hx hpc hout

/-- Every such life ends so: the destructor ran once, and one reference more was dropped than
taken, from a count of zero. -/
theorem life_over {n : ℕ} {s : State n} {o : OpId}
    (h : (service n).RunWhere (State.OnCall o fun c ev => takenAfterReturn c ev = true)
      (service n).init s)
    (hpc : (s.calls o).pc = .returned none) (hout : (s.calls o).asyncTaskOut = true)
    (hcaller : (s.calls o).callerRef = false) (hpacket : (s.calls o).packet = .delivered) :
    (s.calls o).Over := by
  obtain ⟨⟨ha, hx⟩, hl⟩ := lifecycle_life (service_life h)
  refine (hl.late hpc hout).resolve_left fun hleft => ?_
  have hrefs : 1 ≤ (s.calls o).refs := hleft.2
  have hzero : (s.calls o).refs = 0 :=
    (Call.refs_eq_zero_iff ha.built hx hpc (hl.out hout).2).mpr ⟨hcaller, hpacket⟩
  omega

/-! ### A concrete life -/

/-- A read whose packet is taken after its call returned, and whose caller releases last. -/
def readLife : List (Label 1) :=
  startUp ++ submitUpToIssue .read ++ submitUpToInsert ++ submitUpToReturn ++ handlesPacket

/-- Until the caller releases, the books of a read balance. -/
theorem life_accounted_iff_read :
    ∃ s : State 1, (s.calls 0).packet = .delivered ∧
      ((s.calls 0).LifeAccounted ↔
        (s.calls 0).callerRef = true ∨ (s.calls 0).packet ≠ .delivered) := by
  obtain ⟨s, hrun, hpc, hout, hp⟩ := Machine.exists_runWhere (M := service 1)
    (G := State.OnCall 0 fun c ev => takenAfterReturn c ev = true) (s := (service 1).init)
    (P := fun s => (s.calls 0).pc = .returned none ∧ (s.calls 0).asyncTaskOut = true ∧
      (s.calls 0).packet = .delivered) readLife (by decide)
  exact ⟨s, hp, life_accounted_iff hrun hpc hout⟩

/-- **A decrement from zero**: the caller of a read releases after the worker is done. -/
theorem life_underflow :
    ¬∀ (n : ℕ) (s : State n) (o : OpId),
      (service n).RunWhere (State.OnCall o fun c ev => takenAfterReturn c ev = true)
        (service n).init s →
      (s.calls o).pc = .returned none → (s.calls o).asyncTaskOut = true →
      (s.calls o).LifeAccounted := by
  intro h
  obtain ⟨s, hrun, hpc, hout, hbad⟩ := Machine.exists_runWhere (M := service 1)
    (G := State.OnCall 0 fun c ev => takenAfterReturn c ev = true) (s := (service 1).init)
    (P := fun s => (s.calls 0).pc = .returned none ∧ (s.calls 0).asyncTaskOut = true ∧
      (s.calls 0).task.decRefAtZero = 1) (readLife ++ [.submit 0 .release]) (by decide)
  exact absurd (hbad.symm.trans (h 1 s 0 hrun hpc hout).neverBelowZero) Nat.one_ne_zero

end Netknot.Win32
