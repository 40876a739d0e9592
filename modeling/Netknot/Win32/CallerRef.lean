import Netknot.Win32.Projection
import Netknot.Win32.References

/-!
# The Caller's Reference

`task->incRef(0)` of a submit call takes a reference for its caller, who gets the task with
`asyncTaskOut`. As long as the caller does not drop it the task is not destroyed, whatever the
kernel and the workers do, and the objects the task refers to are not released. This is so
however late the reference was taken, unless the task was gone by then.

## Main results

* `Call.Holding.step`: what one step of an operation keeps.
* `lifecycle_holding`: in every run of an operation.
* `Call.released_of_steps`, `Call.returned_of_steps`: a call that has returned, whatever happens
  to its operation.
-/

namespace Netknot.Win32

/-- Before the insert the reference was not taken. -/
theorem SubmitPc.before_of_afterInsert {pc : SubmitPc} (h : pc.afterInsert = false) :
    pc ≠ .returned none ∧ pc.afterShare = false := by
  constructor
  · rintro rfl
    cases h
  · revert h
    cases pc with
    | returned e => cases e <;> exact id
    | shared | leaving => exact id
    | _ => exact fun _ => rfl

namespace Call

/-- **The steps behind the insert**: those of a call that succeeds, and the drop of its caller. -/
inductive Finishes (c : Call) : SubmitChoice → Call → Prop
  | share (hpc : c.pc = .posted) : Finishes c .go c.share
  | assignOut (hpc : c.pc = .shared) : Finishes c .go c.assignOut
  | leave (hpc : c.pc = .leaving) : Finishes c .go c.leave
  | release (hpc : c.pc = .returned none) (href : c.callerRef = true) :
      Finishes c .release { c with task := c.task.decRef, callerRef := false, released := true }

/-- A call does nothing else there. -/
theorem finishes_of_submits {c c' : Call} {choice : SubmitChoice}
    (hsub : Submits c choice (.next c')) (hinsert : c.pc.afterInsert = true) :
    Finishes c choice c' := by
  cases hsub with
  | share hpc => exact .share hpc
  | assignOut hpc => exact .assignOut hpc
  | leave hpc => exact .leave hpc
  | release hpc href => exact .release hpc href
  | call kind tooBig hpc | allocTask ok hpc | createSocket ok hpc | issue result hpc
  | accept ok result hpc | refuse ok code e hpc | insertFails hpc | unwind hpc | giveUp hpc =>
      rw [hpc] at hinsert
      cases hinsert
  | allocOverlapped ok hpc => rcases hpc with hpc | hpc <;> rw [hpc] at hinsert <;> cases hinsert

/-- **The caller's reference**: a call that succeeded took it, only the caller drops it, and
until then the task lives, unless the submitting thread found it destroyed. -/
structure Holding (c : Call) : Prop where
  released : c.released = true → c.pc = .returned none
  caller : c.pc.afterShare = true → c.failPoint = none → c.released = false → c.callerRef = true
  alive : c.callerRef = true → c.fault = false → c.task.destroyed = 0

/-- A call that has not been made holds what it has to: nothing. -/
theorem holding_init : ({} : Call).Holding :=
  ⟨fun h => absurd h Bool.false_ne_true, fun h => absurd h Bool.false_ne_true,
    fun h => absurd h Bool.false_ne_true⟩

/-- The caller is one party. -/
theorem one_le_refs {c : Call} (h : c.callerRef = true) : 1 ≤ c.refs := by
  rw [refs, h, Bool.toNat_true]
  omega

/-- A call that has not returned success was not released. -/
theorem Holding.released_eq_false {c : Call} (h : c.Holding) (hpc : c.pc ≠ .returned none) :
    c.released = false :=
  Bool.eq_false_iff.mpr fun hr => hpc (h.released hr)

/-- **What the submitting thread leaves alone** before it takes the reference: the caller has
none, and if the call returns it has failed. -/
structure Unshared (c c' : Call) : Prop where
  callerRef : c'.callerRef = c.callerRef
  released : c'.released = c.released
  failed : c'.pc.afterShare = true → c'.failPoint ≠ none

/-- A failing exit makes no reference of the caller. -/
theorem unshared_fail (c : Call) (e : ExceptionPointer) (p : FailPoint) :
    Unshared c (c.fail e p) := by
  rw [fail_eq]
  exact ⟨rfl, rfl, fun _ => Option.some_ne_none p⟩

/-- A step to a program point before the reference is taken makes none. -/
theorem unshared_of_pc {c c' : Call} (hcaller : c'.callerRef = c.callerRef)
    (hreleased : c'.released = c.released) (hpc : c'.pc.afterShare = false) : Unshared c c' :=
  ⟨hcaller, hreleased, fun hs => absurd (hpc.symm.trans hs) Bool.false_ne_true⟩

/-- A step of the submitting thread before the insert makes none. -/
theorem unshared_of_submits {c c' : Call} {choice : SubmitChoice}
    (hsub : Submits c choice (.next c')) (hpc : c.pc.afterInsert = false) : Unshared c c' := by
  cases hsub with
  | call kind tooBig hidle =>
      rw [enter]
      split
      · have hfail := unshared_fail { c with kind := kind } (some .bufferIsTooBig) .bufferSize
        exact ⟨hfail.callerRef, hfail.released, hfail.failed⟩
      · exact unshared_of_pc rfl rfl rfl
  | allocTask ok hentered =>
      rw [allocTask]
      split
      · exact unshared_of_pc rfl rfl rfl
      · exact unshared_fail c _ _
  | createSocket ok hallocated hkind =>
      rw [createSocket]
      split
      · exact unshared_of_pc rfl rfl rfl
      · exact unshared_fail c _ _
  | allocOverlapped ok hready =>
      rw [allocOverlapped]
      split
      · exact unshared_of_pc rfl rfl rfl
      · exact unshared_fail c _ _
  | issue result hprepared =>
      rw [issue]
      split <;> exact unshared_of_pc rfl rfl rfl
  | accept ok result hissued hacc => exact unshared_of_pc rfl rfl rfl
  | refuse ok code e hissued hacc he => exact unshared_fail c e _
  | insertFails haccepted | giveUp hunwound => exact unshared_of_pc rfl rfl rfl
  | unwind hunwinding =>
      rw [unwind_eq]
      exact unshared_of_pc rfl rfl rfl
  | share hat | assignOut hat | leave hat | release hat =>
      rw [hat] at hpc
      cases hpc

/-- Such a step keeps `Holding`. -/
theorem Holding.unshared {c c' : Call} (hb : c.Built) (h : c.Holding)
    (hpc : c.pc ≠ .returned none) (hcaller : c.pc.afterShare = false) (hun : Unshared c c') :
    c'.Holding := by
  have hnone : c'.callerRef = false := hun.callerRef.trans (hb.callerRef_eq_false hcaller)
  have hfree : c'.released = false := hun.released.trans (h.released_eq_false hpc)
  exact ⟨fun hr => absurd (hfree.symm.trans hr) Bool.false_ne_true,
    fun hs hnot => absurd hnot (hun.failed hs),
    fun hr => absurd (hnone.symm.trans hr) Bool.false_ne_true⟩

/-- A drop that leaves the caller does not destroy the task. -/
theorem destroyed_of_effect {c c' : Call} (hl : c.Ledger) (heff : RefEffect c c')
    (href : c'.callerRef = true) : c'.task.destroyed = c.task.destroyed := by
  cases heff with
  | keeps status htask hrefs => rw [htask]
  | takes sz htask hrefs => rw [htask]; rfl
  | drops htask hrefs =>
      have hleft : 1 ≤ c'.refs := one_le_refs href
      rw [htask, AsyncTask.decRef_of_two_le (by rw [hl.count]; omega)]

/-- A step of the submitting thread behind the insert, or of the caller, keeps `Holding`. -/
theorem Holding.shared {c c' : Call} {choice : SubmitChoice} (ha : c.Accounted) (h : c.Holding)
    (hfin : Finishes c choice c') : c'.Holding := by
  cases hfin with
  | share hposted =>
      refine ⟨fun hr => ?_, fun _ _ _ => rfl, fun _ hfault => ?_⟩
      · rw [share, touch, h.released_eq_false (by simp [hposted])] at hr
        cases hr
      · -- a task that is destroyed is a fault
        have hdestroyed : ¬0 < c.task.destroyed := by
          intro hpos
          simp [share, touch, hpos] at hfault
        exact Nat.eq_zero_of_not_pos hdestroyed
  | assignOut hshared =>
      refine ⟨fun hr => ?_, fun _ => h.caller (by rw [hshared]; rfl), h.alive⟩
      rw [assignOut, h.released_eq_false (by simp [hshared])] at hr
      cases hr
  | leave hleaving =>
      have hfree : c.released = false := h.released_eq_false (by simp [hleaving])
      rw [leave_eq]
      refine ⟨fun _ => rfl, fun _ => h.caller (by rw [hleaving]; rfl), fun href hfault => ?_⟩
      by_cases hk : c.kind = .read
      · simp only [if_pos hk] at hfault ⊢
        have hbefore : c.fault = false := by
          by_contra hne
          simp [touch, hne] at hfault
        have halive : c.task.destroyed = 0 := h.alive href hbefore
        have hl : c.Ledger := ha.ledger halive
        have htwo : 2 ≤ c.refs :=
          two_le_refs_of_read hk (by rw [hleaving]; rfl) (.inr (.inl href))
        rw [AsyncTask.decRef_of_two_le (by rw [hl.count]; exact htwo)]
        exact halive
      · simp only [if_neg hk] at hfault ⊢
        exact h.alive href hfault
  | release hreturned href =>
      refine ⟨fun _ => hreturned, fun _ _ hr => ?_, fun hr => ?_⟩
      · cases hr
      · cases hr

/-- A step of the kernel or of a worker keeps `Holding`. -/
theorem Holding.of_packet {c c' : Call} (ha : c.Accounted) (h : c.Holding)
    (hframe : PacketFrame c c') (heff : RefEffect c c') : c'.Holding where
  released := fun hr => hframe.pc.trans (h.released (hframe.released ▸ hr))
  caller := fun hs hnone hr => hframe.callerRef.trans
    (h.caller (hframe.pc ▸ hs) (hframe.failPoint ▸ hnone) (hframe.released ▸ hr))
  alive := fun href hfault => by
    have halive : c.task.destroyed = 0 :=
      h.alive (hframe.callerRef.symm.trans href) (hframe.fault.symm.trans hfault)
    rw [destroyed_of_effect (ha.ledger halive) heff href, halive]

/-- **The step lemma of `Holding`**: every step keeps it. -/
theorem Holding.step {c c' : Call} {ev : Event} (ha : c.Accounted) (h : c.Holding)
    (hstep : Steps c ev c') : c'.Holding := by
  by_cases hev : ∀ choice, ev ≠ .submit choice
  · exact h.of_packet ha (packetFrame_of_steps hstep hev) (refEffect_of_steps ha.built hstep hev)
  · cases hstep with
    | submit hsub =>
        cases hinsert : c.pc.afterInsert with
        | true => exact h.shared ha (finishes_of_submits hsub hinsert)
        | false =>
            obtain ⟨hpc, hshare⟩ := SubmitPc.before_of_afterInsert hinsert
            exact h.unshared ha.built hpc hshare (unshared_of_submits hsub hinsert)
    | register hsub =>
        cases hsub with
        | insert hpc =>
            exact h.unshared ha.built (by simp [hpc]) (by rw [hpc]; rfl)
              (unshared_of_pc rfl rfl rfl)
    | _ => exact absurd (fun _ he => by cases he) hev

/-! ### Calls that have returned -/

/-- Only the caller drops its reference. -/
theorem released_of_steps {c c' : Call} {ev : Event} (hstep : Steps c ev c')
    (hev : ev ≠ .submit .release) : c'.released = c.released := by
  by_cases hsubmit : ∀ choice, ev ≠ .submit choice
  · exact (packetFrame_of_steps hstep hsubmit).released
  · cases hstep with
    | submit hsub =>
        cases hinsert : c.pc.afterInsert with
        | false => exact (unshared_of_submits hsub hinsert).released
        | true =>
            cases finishes_of_submits hsub hinsert with
            | share hpc | assignOut hpc => rfl
            | leave hpc => rw [leave_eq]
            | release hpc href => exact absurd rfl hev
    | register hsub =>
        cases hsub with
        | insert hpc => rfl
    | _ => exact absurd (fun _ he => by cases he) hsubmit

/-- A call that has returned success has made its last step. -/
theorem returned_of_steps {c c' : Call} {ev : Event} (hstep : Steps c ev c')
    (hpc : c.pc = .returned none) :
    c'.pc = .returned none ∧ c'.failPoint = c.failPoint ∧ c'.fault = c.fault := by
  by_cases hsubmit : ∀ choice, ev ≠ .submit choice
  · have hframe := packetFrame_of_steps hstep hsubmit
    exact ⟨hframe.pc.trans hpc, hframe.failPoint, hframe.fault⟩
  · cases hstep with
    | submit hsub =>
        cases finishes_of_submits hsub (by rw [hpc]; rfl) with
        | release hpc' href => exact ⟨hpc, rfl, rfl⟩
        | share hpc' | assignOut hpc' | leave hpc' => cases hpc.symm.trans hpc'
    | register hsub =>
        cases hsub with
        | insert hpc' => cases hpc.symm.trans hpc'
    | _ => exact absurd (fun _ he => by cases he) hsubmit

end Call

/-- The caller holds its reference in every run of an operation, from the return until
the release. -/
theorem lifecycle_holding {c : Call} (h : lifecycle.Reachable c) : c.Accounted ∧ c.Holding := by
  refine h.invariant (I := fun c => c.Accounted ∧ c.Holding)
    ⟨lifecycle_accounted (H := fun _ _ => True) .refl, Call.holding_init⟩ ?_
  rintro c ev c' ⟨ha, hh⟩ hstep
  have hsteps := Call.steps_of_after hstep
  exact ⟨ha.step hsteps, hh.step ha hsteps⟩

end Netknot.Win32
