import Netknot.Win32.Projection

/-!
# Delivery of Completions

A completion packet is handled by looking its task up in `currentTasks`. The submitting
thread inserts the task only after the kernel call, so the packet can be in a worker's
hands before the task is in the set: the worker then drops the packet, and the callback of
an operation whose submit call goes on to succeed is never invoked.

Nothing else goes wrong. In a run whose workers look an operation up only outside that
window, every success packet of a successfully submitted operation leads to exactly one
invocation of the callback.

## Main results

* `Call.Counted.step`: in every run the callback was invoked once from the moment the
  worker builds its local `task`, and never before.
* `Call.missed_step`: without a lookup in the window, a packet is dropped only when its
  call failed.
* `delivered_once`: no lost and no duplicated completion, in runs without such a lookup.
* `completion_lost`: a run with one, in which the callback is lost;
  `lookup_in_window_loses`: it is lost after every such lookup.
-/

namespace Netknot.Win32

/-- The program points between the kernel call and the insert in `currentTasks`. -/
def SubmitPc.beforeInsert : SubmitPc → Bool
  | .issued _ | .accepted => true
  | _ => false

/-- A worker has taken the success packet from the queue. -/
def PacketPhase.dequeued : PacketPhase → Bool
  | .held _ | .delivered | .discarded => true
  | _ => false

/-- The worker that found the task has not come to the callback yet. -/
def PacketPhase.beforeCallback : PacketPhase → Bool
  | .held .dequeued | .held .locked | .held .removed | .held .unlocked | .held .counted
  | .held .marked => true
  | _ => false

/-- The worker has invoked the callback. -/
def PacketPhase.invoked : PacketPhase → Bool
  | .held (.dropRaw _ hit) => hit
  | .held stage => stage.called
  | .delivered => true
  | _ => false

/-- The worker did not find the task. -/
def PacketPhase.missed : PacketPhase → Bool
  | .held (.dropRaw _ hit) => !hit
  | .discarded => true
  | _ => false

/-- **The step condition**: a worker does not look an operation up while its submit call is
between the kernel call and the insert. -/
def looksUpOutsideWindow (c : Call) : Event → Bool
  | .handle .locked _ _ => !c.pc.beforeInsert
  | _ => true

/-- No lost and no duplicated completion: the callback was invoked at most once, and of an
operation whose call returned without exception it was invoked exactly once as soon as the
worker that took the packet is past the point of invoking it. -/
def Call.DeliveredOnce (c : Call) : Prop :=
  c.callbacks ≤ 1 ∧
    (c.pc = .returned none → c.packet.dequeued = true →
      c.packet.beforeCallback = true ∨ c.callbacks = 1)

instance (c : Call) : Decidable c.DeliveredOnce :=
  inferInstanceAs (Decidable (_ ∧ _))

/-- A packet that was dequeued is on its way to the callback, past it, or dropped. -/
theorem PacketPhase.dequeued_cases (p : PacketPhase) (h : p.dequeued = true) :
    p.beforeCallback = true ∨ p.invoked = true ∨ p.missed = true := by
  cases p with
  | held stage =>
      cases stage with
      | dropRaw exits hit => cases hit <;> simp [invoked, missed]
      | _ => simp [beforeCallback, invoked, Stage.called]
  | delivered => exact .inr (.inl rfl)
  | discarded => exact .inr (.inr rfl)
  | _ => exact absurd h Bool.false_ne_true

/-- What holds of the delivery of an operation in every run. -/
structure Call.Counted (c : Call) : Prop where
  /-- The callback was invoked once from the moment the worker invoked it. -/
  callbacks : c.callbacks = c.packet.invoked.toNat
  /-- On the successful path the task is in the set from the insert until it is found. -/
  inserted : c.pc.afterInsert = true → c.failPoint = none → c.registered = !c.packet.found

namespace Call

/-- A step of the submit call keeps the count. -/
theorem Counted.submit {c c' : Call} {choice : SubmitChoice} (hs : c.Sound) (h : c.Counted)
    (hstep : Submits c choice (.next c')) : c'.Counted := by
  obtain ⟨hreg, hcallbacks, hpacket, hbefore, hafter⟩ := submitFrame_of_submits hs hstep
  refine ⟨?_, fun hpc hfail => ?_⟩
  · rw [hcallbacks, h.callbacks]
    rcases hpacket with hsame | ⟨hold, hnew⟩
    · rw [hsame]
    · rw [hold, hnew]
      rfl
  · have hpc' : c.pc.afterInsert = true := by
      by_contra hne
      rcases hbefore (by simpa using hne) with hb | hb
      · exact absurd (hb.symm.trans hpc) Bool.false_ne_true
      · exact absurd hfail hb
    have hin : c.registered = !c.packet.found :=
      h.inserted hpc' ((hafter hpc').2 ▸ hfail)
    rw [hreg, hin]
    rcases hpacket with hsame | ⟨hold, hnew⟩
    · rw [hsame]
    · rw [hold, hnew]
      rfl

/-- A step of the kernel or of a worker keeps the count when it counts the callback and
takes the task out of the set as the packet says. -/
theorem Counted.of_packet {c c' : Call} (h : c.Counted) (hpc : c'.pc = c.pc)
    (hfail : c'.failPoint = c.failPoint)
    (hcallbacks : c'.callbacks + c.packet.invoked.toNat =
      c.callbacks + c'.packet.invoked.toNat)
    (hinserted : c.registered = (!c.packet.found) → c'.registered = !c'.packet.found) :
    c'.Counted where
  callbacks := by
    have hold := h.callbacks
    omega
  inserted := fun ha hf => hinserted (h.inserted (hpc ▸ ha) (hfail ▸ hf))

/-- Behind the invocation the task was found and the callback invoked. -/
theorem found_of_called {stage : Stage} (h : stage.called = true) :
    (PacketPhase.held stage).invoked = true ∧ (PacketPhase.held stage).found = true ∧
      (PacketPhase.held stage).missed = false := by
  cases stage <;> first | exact ⟨rfl, rfl, rfl⟩ | exact absurd h Bool.false_ne_true

/-- **The step lemma of `Counted`**: every step keeps it. -/
theorem Counted.step {c c' : Call} {ev : Event} (hs : c.Sound) (h : c.Counted)
    (hstep : Steps c ev c') : c'.Counted := by
  cases hstep with
  | submit hsub => exact h.submit hs hsub
  | register hsub =>
      cases hsub with
      | insert hpc =>
          have hunfound : c.packet.found = false := by
            by_contra hne
            have hafter := hs.found (by simpa using hne)
            rw [hpc] at hafter
            exact Bool.false_ne_true hafter
          exact ⟨h.callbacks, fun _ _ => by simp [hunfound, touch]⟩
  | complete hp =>
      exact h.of_packet rfl rfl (by simp [hp, complete, PacketPhase.invoked])
        (by simp [hp, complete, PacketPhase.found])
  | completeFailed hp =>
      exact h.of_packet rfl rfl (by simp [hp, completeFailed, PacketPhase.invoked])
        (by simp [hp, completeFailed, PacketPhase.found])
  | dequeue hp =>
      exact h.of_packet rfl rfl (by simp [hp, atStage, PacketPhase.invoked, Stage.called])
        (by simp [hp, atStage, PacketPhase.found])
  | takeFailed hp =>
      exact h.of_packet rfl rfl (by simp [hp, takeFailed, PacketPhase.invoked])
        (by simp [hp, takeFailed, PacketPhase.found])
  | holdRaw sz hp =>
      exact h.of_packet rfl rfl (by simp [hp, Call.holdRaw, PacketPhase.invoked, Stage.called])
        (by simp [hp, Call.holdRaw, PacketPhase.found])
  | hit sz hp hreg =>
      exact h.of_packet rfl rfl (by simp [hp, remove, PacketPhase.invoked, Stage.called])
        (by simp [hp, remove, PacketPhase.found])
  | miss sz hp hreg =>
      exact h.of_packet rfl rfl (by simp [hp, atStage, PacketPhase.invoked, Stage.called])
        (by simp [hp, atStage, PacketPhase.found])
  | dropOverlappedRef sz hp =>
      exact h.of_packet rfl rfl
        (by simp [hp, Call.dropOverlappedRef, PacketPhase.invoked, Stage.called])
        (by simp [hp, Call.dropOverlappedRef, PacketPhase.found])
  | addTransferred sz hp =>
      exact h.of_packet rfl rfl
        (by simp [hp, Call.addTransferred, PacketPhase.invoked, Stage.called])
        (by simp [hp, Call.addTransferred, PacketPhase.found])
  | setDone sz hp =>
      exact h.of_packet rfl rfl (by simp [hp, Call.setDone, PacketPhase.invoked, Stage.called])
        (by simp [hp, Call.setDone, PacketPhase.found])
  | invoke sz hp =>
      exact h.of_packet rfl rfl (by simp [hp, Call.invoke, PacketPhase.invoked, Stage.called])
        (by simp [hp, Call.invoke, PacketPhase.found])
  | stays sz hp hin hin' =>
      obtain ⟨hi, hf, -⟩ := found_of_called hin
      obtain ⟨hi', hf', -⟩ := found_of_called hin'
      exact h.of_packet rfl rfl (by simp [hp, atStage, hi, hi']) (by simp [hp, atStage, hf, hf'])
  | dropTask sz exits hp =>
      exact h.of_packet rfl rfl (by simp [hp, Call.dropTask, PacketPhase.invoked, Stage.called])
        (by simp [hp, Call.dropTask, PacketPhase.found])
  | dropRaw sz exits hit hp =>
      cases hit <;>
        exact h.of_packet rfl rfl (by simp [hp, Call.dropRaw, PacketPhase.invoked])
          (by simp [hp, Call.dropRaw, PacketPhase.found])

/-! ### Dropped packets -/

/-- When a task is not in the set although its packet is in a worker's hands, outside the window,
its call failed. -/
theorem failed_of_unregistered {c : Call} {stage : Stage} (hs : c.Sound) (hx : c.Exits)
    (h : c.Counted) (hwindow : c.pc.beforeInsert = false) (hp : c.packet = .held stage)
    (hunfound : c.packet.found = false) (hreg : c.registered = false) : c.pc.failed = true := by
  have hissued : c.pc.beforeIssue = false := by
    by_contra hne
    simp [hs.notIssued (by simpa using hne)] at hp
  have hfailed : c.pc.afterInsert = true → c.failPoint ≠ none := by
    intro ha hf
    have hin := h.inserted ha hf
    rw [hreg, hunfound] at hin
    exact Bool.false_ne_true hin
  cases hpc : c.pc with
  | returned e =>
      cases e with
      | some e => rfl
      | none =>
          exfalso
          obtain ⟨p, hf⟩ := Option.ne_none_iff_exists'.mp (hfailed (by rw [hpc]; rfl))
          obtain ⟨-, e', he', hnull, hpacket⟩ := hx.failed p hf
          obtain rfl : none = e' := by simpa [hpc] using he'
          have hkernel : p = .kernelCall := by
            by_contra hne
            exact hnull hne rfl
          simp [hpacket (by simp [hkernel])] at hp
  | posted | shared | leaving =>
      exact absurd (hx.failPoint_eq_none (by simp [hpc])) (hfailed (by rw [hpc]; rfl))
  | unwinding | unwound => rfl
  | _ => simp [hpc, SubmitPc.beforeInsert, SubmitPc.beforeIssue] at hwindow hissued

/-- **A packet is dropped only when its call failed**, in steps that meet the condition. -/
theorem missed_step {c c' : Call} {ev : Event} (hs : c.Sound) (hx : c.Exits) (hc : c.Counted)
    (h : c.packet.missed = true → c.pc.failed = true)
    (hok : looksUpOutsideWindow c ev = true) (hstep : Steps c ev c') :
    c'.packet.missed = true → c'.pc.failed = true := by
  intro hm
  cases hstep with
  | submit hsub =>
      obtain ⟨-, -, hpacket, -, -⟩ := submitFrame_of_submits hs hsub
      rcases hpacket with hsame | ⟨-, hnew⟩
      · exact failed_of_submits (h (hsame ▸ hm)) hsub
      · rw [hnew] at hm
        exact absurd hm Bool.false_ne_true
  | register hsub =>
      cases hsub with
      | insert hpc =>
          have hfailed : c.pc.failed = true := h hm
          rw [hpc] at hfailed
          exact absurd hfailed Bool.false_ne_true
  | miss sz hp hreg =>
      have hwindow : c.pc.beforeInsert = false := by simpa [looksUpOutsideWindow] using hok
      have hunfound : c.packet.found = false := by rw [hp]; rfl
      have hfailed : c.pc.failed = true :=
        failed_of_unregistered hs hx hc hwindow hp hunfound hreg
      exact hfailed
  | stays sz hp hin hin' => exact absurd ((found_of_called hin').2.2.symm.trans hm) (by decide)
  | dropRaw sz exits hit hp =>
      cases hit with
      | true => exact absurd hm Bool.false_ne_true
      | false => exact h (by rw [hp]; rfl)
  | _ => exact absurd hm Bool.false_ne_true

/-- A packet that was dropped stays dropped, and the callback is not invoked any more. -/
theorem missed_stays {c c' : Call} {ev : Event} (hs : c.Sound) (h : c.packet.missed = true)
    (hstep : Steps c ev c') : c'.packet.missed = true := by
  cases hstep with
  | submit hsub =>
      have hmade : c.packet ≠ .notIssued := by
        intro hold
        rw [hold] at h
        exact absurd h Bool.false_ne_true
      rw [(submitFrame_of_submits hs hsub).packet_eq hmade]
      exact h
  | register hsub =>
      cases hsub with
      | insert hpc => exact h
  | stays sz hp hin hin' =>
      rw [hp] at h
      exact absurd ((found_of_called hin).2.2.symm.trans h) Bool.false_ne_true
  | dropRaw sz exits hit hp =>
      rw [hp] at h
      cases hit with
      | true => exact absurd h Bool.false_ne_true
      | false => rfl
  | complete hp | completeFailed hp | dequeue hp | takeFailed hp | holdRaw sz hp | hit sz hp hreg
  | miss sz hp hreg | dropOverlappedRef sz hp | addTransferred sz hp | setDone sz hp
  | invoke sz hp | dropTask sz exits hp =>
      rw [hp] at h
      exact absurd h Bool.false_ne_true

/-- A counted operation whose packet is dropped only with a failed call is delivered. -/
theorem Counted.deliveredOnce {c : Call} (h : c.Counted)
    (hmissed : c.packet.missed = true → c.pc.failed = true) : c.DeliveredOnce := by
  refine ⟨?_, fun hpc hdeq => ?_⟩
  · rw [h.callbacks]
    exact Bool.toNat_le _
  · rcases c.packet.dequeued_cases hdeq with hb | hi | hm
    · exact .inl hb
    · refine .inr ?_
      rw [h.callbacks, hi]
      rfl
    · have hfailed : c.pc.failed = true := hmissed hm
      rw [hpc] at hfailed
      exact absurd hfailed Bool.false_ne_true

/-- An operation whose packet was dropped is not delivered once its call returned. -/
theorem not_deliveredOnce_of_missed {c : Call} (h : c.Counted) (hm : c.packet.missed = true) :
    c.callbacks = 0 ∧ (c.pc = .returned none → ¬c.DeliveredOnce) := by
  have hphase : c.packet.invoked = false ∧ c.packet.dequeued = true ∧
      c.packet.beforeCallback = false := by
    revert hm
    cases c.packet with
    | held stage =>
        cases stage with
        | dropRaw exits hit => cases hit <;> simp [PacketPhase.invoked, PacketPhase.dequeued,
            PacketPhase.beforeCallback, PacketPhase.missed]
        | _ => exact fun hm => absurd hm Bool.false_ne_true
    | discarded => exact fun _ => ⟨rfl, rfl, rfl⟩
    | _ => exact fun hm => absurd hm Bool.false_ne_true
  obtain ⟨hi, hd, hb⟩ := hphase
  have hzero : c.callbacks = 0 := by rw [h.callbacks, hi]; rfl
  refine ⟨hzero, fun hpc hdel => ?_⟩
  rcases hdel.2 hpc hd with hb' | hone
  · exact absurd (hb.symm.trans hb') Bool.false_ne_true
  · omega

/-! ### Lost operations -/

/-- **No worker comes to the callback of the operation**: its call has returned no exception
although the kernel refused it, or the kernel has failed it, or a worker did not find its task. -/
def lost (c : Call) : Bool :=
  match c.packet with
  | .notIssued => c.pc = .returned none
  | .queuedFailed | .failed => true
  | p => p.missed

/-- An operation is lost in one of these three ways. -/
theorem lost_iff {c : Call} : c.lost = true ↔
    c.packet = .notIssued ∧ c.pc = .returned none ∨ c.packet = .queuedFailed ∨
      c.packet = .failed ∨ c.packet.missed = true := by
  rw [lost]
  cases c.packet <;> simp [PacketPhase.missed]

/-- What was lost stays lost. -/
theorem lost_stays {c c' : Call} {ev : Event} (hs : c.Sound) (h : c.lost = true)
    (hstep : Steps c ev c') : c'.lost = true := by
  rw [lost_iff] at h ⊢
  rcases h with ⟨hnot, hpc⟩ | hp | hp | hm
  · cases hstep with
    | submit hsub =>
        cases hsub with
        | release hpc' href => exact .inl ⟨hnot, hpc⟩
        | allocOverlapped ok hpc' => rcases hpc' with hpc' | hpc' <;> cases hpc'.symm.trans hpc
        | call kind tooBig hpc' | allocTask ok hpc' | createSocket ok hpc' hkind
        | issue result hpc' | accept ok result hpc' hacc | refuse ok code e hpc' hacc he
        | insertFails hpc' | unwind hpc' | giveUp hpc' | share hpc' | assignOut hpc'
        | leave hpc' => cases hpc'.symm.trans hpc
    | register hsub =>
        cases hsub with
        | insert hpc' => cases hpc'.symm.trans hpc
    | complete hp' | completeFailed hp' | dequeue hp' | takeFailed hp' | holdRaw sz hp'
    | hit sz hp' hreg | miss sz hp' hreg | dropOverlappedRef sz hp' | addTransferred sz hp'
    | setDone sz hp' | invoke sz hp' | stays sz hp' hin hin' | dropTask sz exits hp'
    | dropRaw sz exits hit hp' => cases hp'.symm.trans hnot
  · cases hstep with
    | submit hsub =>
        rw [(submitFrame_of_submits hs hsub).packet_eq (by rw [hp]; simp)]
        exact .inr (.inl hp)
    | register hsub =>
        cases hsub with
        | insert hpc => exact .inr (.inl hp)
    | takeFailed hp' => exact .inr (.inr (.inl rfl))
    | complete hp' | completeFailed hp' | dequeue hp' | holdRaw sz hp'
    | hit sz hp' hreg | miss sz hp' hreg | dropOverlappedRef sz hp' | addTransferred sz hp'
    | setDone sz hp' | invoke sz hp' | stays sz hp' hin hin' | dropTask sz exits hp'
    | dropRaw sz exits hit hp' => cases hp'.symm.trans hp
  · cases hstep with
    | submit hsub =>
        rw [(submitFrame_of_submits hs hsub).packet_eq (by rw [hp]; simp)]
        exact .inr (.inr (.inl hp))
    | register hsub =>
        cases hsub with
        | insert hpc => exact .inr (.inr (.inl hp))
    | complete hp' | completeFailed hp' | dequeue hp' | takeFailed hp' | holdRaw sz hp'
    | hit sz hp' hreg | miss sz hp' hreg | dropOverlappedRef sz hp' | addTransferred sz hp'
    | setDone sz hp' | invoke sz hp' | stays sz hp' hin hin' | dropTask sz exits hp'
    | dropRaw sz exits hit hp' => cases hp'.symm.trans hp
  · exact .inr (.inr (.inr (missed_stays hs hm hstep)))

/-- A call that has not been made has lost nothing. -/
theorem not_lost_of_idle {c : Call} (hpc : c.pc = .idle) (hs : c.Sound) : c.lost = false := by
  have hnot : c.packet = .notIssued := hs.notIssued (by rw [hpc]; rfl)
  simp [lost, hnot, hpc]

/-- A call that was refused and returned no exception is lost. -/
theorem Exits.lost {c : Call} (h : c.Exits) {p : FailPoint} (hfail : c.failPoint = some p)
    (hpc : c.pc = .returned none) : c.lost = true := by
  obtain ⟨-, e, he, hexception, hpacket⟩ := h.failed p hfail
  have hkernel : p = .kernelCall := by
    by_contra hne
    exact hexception hne (SubmitPc.returned.inj (he.symm.trans hpc))
  rw [lost_iff]
  exact .inl ⟨hpacket (by rw [hkernel]; simp), hpc⟩

end Call

/-! ### Whole runs -/

/-- In every run of an operation its callback is counted. -/
theorem lifecycle_counted {H : Call → Event → Prop} {c : Call}
    (h : lifecycle.RunWhere H lifecycle.init c) : (c.Sound ∧ c.Exits) ∧ c.Counted := by
  refine h.invariant (I := fun c => (c.Sound ∧ c.Exits) ∧ c.Counted)
    ⟨lifecycle_sound (H := H) .refl, rfl, fun hpc => absurd hpc Bool.false_ne_true⟩ ?_
  rintro c ev c' ⟨⟨hs, hx⟩, hc⟩ - hstep
  have hsteps := Call.steps_of_after hstep
  exact ⟨⟨hs.step hsteps, hx.step hs hsteps⟩, hc.step hs hsteps⟩

/-- In a run of an operation that meets the step condition its packet is dropped only when
its call failed. -/
theorem lifecycle_missed {c : Call}
    (h : lifecycle.RunWhere (fun c ev => looksUpOutsideWindow c ev = true) lifecycle.init c)
    (hm : c.packet.missed = true) : c.pc.failed = true := by
  have hall : ((c.Sound ∧ c.Exits) ∧ c.Counted) ∧
      (c.packet.missed = true → c.pc.failed = true) := by
    refine h.invariant (I := fun c => ((c.Sound ∧ c.Exits) ∧ c.Counted) ∧
      (c.packet.missed = true → c.pc.failed = true))
      ⟨lifecycle_counted (H := fun _ _ => True) .refl,
        fun hm => absurd hm Bool.false_ne_true⟩ ?_
    rintro c ev c' ⟨⟨⟨hs, hx⟩, hc⟩, hmiss⟩ hok hstep
    have hsteps := Call.steps_of_after hstep
    exact ⟨⟨⟨hs.step hsteps, hx.step hs hsteps⟩, hc.step hs hsteps⟩,
      Call.missed_step hs hx hc hmiss hok hsteps⟩
  exact hall.2 hm

/-- A packet that was dropped stays dropped in every further run. -/
theorem missed_of_run {H : Call → Event → Prop} {c c' : Call} (hs : c.Sound)
    (hm : c.packet.missed = true) (h : lifecycle.RunWhere H c c') : c'.packet.missed = true := by
  have hall : c'.Sound ∧ c'.packet.missed = true := by
    refine h.invariant (I := fun c => c.Sound ∧ c.packet.missed = true) ⟨hs, hm⟩ ?_
    rintro c ev c' ⟨hs, hm⟩ - hstep
    have hsteps := Call.steps_of_after hstep
    exact ⟨hs.step hsteps, Call.missed_stays hs hm hsteps⟩
  exact hall.2

/-- **No lost and no duplicated completion**, for any number of workers and of calls, in
every run whose workers look the operation up outside the window between its kernel call
and its insert. -/
theorem delivered_once {n : ℕ} {s : State n} {o : OpId}
    (h : (service n).RunWhere (State.OnCall o fun c ev => looksUpOutsideWindow c ev = true)
      (service n).init s) : (s.calls o).DeliveredOnce :=
  (lifecycle_counted (service_life h)).2.deliveredOnce (lifecycle_missed (service_life h))

/-- **Every lookup in the window loses the completion**: after it the callback is never
invoked, and if the call returns without exception the completion is lost. -/
theorem lookup_in_window_loses {n : ℕ} {s t u : State n} {w : Fin n} {o : OpId} {sz : ℕ}
    (hs : (service n).Reachable s) (hw : (s.workers w).pc = .handling o sz .locked)
    (hpc : (s.calls o).pc.beforeInsert = true) (hstep : s.step (.worker w .go) = some t)
    (hrun : (service n).RunWhere (fun _ _ => True) t u) :
    (u.calls o).callbacks = 0 ∧
      ((u.calls o).pc = .returned none → ¬(u.calls o).DeliveredOnce) := by
  have hcoh : s.Coherent := service_coherent hs
  have hnotin : o ∉ s.currentTasks := by
    intro hmem
    have hcount : 0 < s.currentTasks.count o := List.count_pos_iff.mpr hmem
    rw [(hcoh o).tasks] at hcount
    have hreg : (s.calls o).registered = true := by
      by_contra hne
      rw [Bool.not_eq_true _ |>.mp hne] at hcount
      exact absurd hcount (Nat.lt_irrefl 0)
    have hafter := (hcoh o).sound.inserted hreg
    cases hc : (s.calls o).pc <;> rw [hc] at hpc hafter <;>
      first | exact Bool.false_ne_true hpc | exact Bool.false_ne_true hafter
  have htcoh : t.Coherent := (State.moves_of_step hcoh hstep).coherent hcoh
  have hcall : t.calls o = (s.calls o).atStage (.dropRaw false false) := by
    have hlookup : s.workerStep w .go = some (s.lookup w o sz) := by
      simp only [State.workerStep, hw, State.handlingStep]
    rw [State.step] at hstep
    split at hstep
    · cases hstep
    · obtain rfl := Option.some.inj (hlookup.symm.trans hstep)
      simp [State.lookup, hnotin, State.advance, State.setPc, State.setWorker, State.setCall]
  have hstep' : (service n).step s (.worker w .go) = some t := hstep
  have hone : (service n).RunWhere (fun _ _ => True) s t := .single trivial hstep'
  have hreach : (service n).Reachable u := (hs.trans hone).trans hrun
  have hlife : lifecycle.RunWhere (fun _ _ => True) (t.calls o) (u.calls o) :=
    life_of_any_run htcoh hrun o
  have hmissed : (u.calls o).packet.missed = true :=
    missed_of_run (htcoh o).sound (by rw [hcall]; rfl) hlife
  have hcounted : (u.calls o).Counted := (lifecycle_counted (reachable_life hreach o)).2
  exact Call.not_deliveredOnce_of_missed hcounted hmissed

/-! ### Concrete runs -/

/-- `run()` up to the wait, with one worker. -/
def startUp : List (Label 1) :=
  [.run .call, .run .go, .run .go, .run .go, .run .go, .run .go, .run .go]

/-- A submit call other than `acceptAsync` up to the answer of the kernel, which completes
the operation at once. -/
def submitUpToIssue (kind : AsyncTaskType) : List (Label 1) :=
  [.submit 0 (.call kind false), .submit 0 (.alloc true), .submit 0 (.alloc true),
   .submit 0 (.issue .success), .complete 0 5]

/-- The steps up to the insert in `currentTasks`. -/
def submitUpToInsert : List (Label 1) := [.submit 0 (.alloc true), .submit 0 (.alloc true)]

/-- The steps from the insert to the return. -/
def submitUpToReturn : List (Label 1) := [.submit 0 .go, .submit 0 .go, .submit 0 .go]

/-- The worker takes the packet, does not find the task and drops the packet. -/
def dropsPacket : List (Label 1) :=
  [.worker 0 .go, .worker 0 .go, .worker 0 .go, .worker 0 .go]

/-- The worker takes the packet, finds the task and comes to the callback. -/
def reachesCallback : List (Label 1) := List.replicate 7 (.worker 0 .go)

/-- The callback returns without exception, and the worker is done with the packet. -/
def leavesCallback : List (Label 1) := [.worker 0 (.ret none), .worker 0 .go, .worker 0 .go]

/-- The worker takes the packet, finds the task and goes through to the end. -/
def handlesPacket : List (Label 1) := reachesCallback ++ leavesCallback

/-- The callback calls `stop()`, which returns. -/
def callsStop : List (Label 1) := [.worker 0 .stop, .worker 0 .go, .worker 0 .go]

/-- A read whose packet a worker has taken up to its callback, while `run()` sleeps. -/
def runsCallback : List (Label 1) :=
  startUp ++ submitUpToIssue .read ++ submitUpToInsert ++ submitUpToReturn ++ reachesCallback

/-- The callback returns an exception, and the worker leaves. -/
def failsCallback : List (Label 1) :=
  [.worker 0 (.ret (some (.user 0))), .worker 0 .go, .worker 0 .go, .worker 0 .go]

/-- `run()`, once woken, posts its packet and comes to the join. -/
def runPosts : List (Label 1) := [.run .go, .run .go]

/-- `run()` joins its worker and comes to its last loop. -/
def runJoins : List (Label 1) := [.run .go, .run .go]

/-- A read whose packet is looked up after its call returned is delivered once. -/
theorem delivered_once_read :
    ∃ s : State 1, ((s.calls 0).pc = .returned none ∧ (s.calls 0).packet = .delivered) ∧
      (s.calls 0).DeliveredOnce := by
  obtain ⟨s, hrun, hs⟩ := Machine.exists_runWhere (M := service 1)
    (G := State.OnCall 0 fun c ev => looksUpOutsideWindow c ev = true) (s := (service 1).init)
    (P := fun s => (s.calls 0).pc = .returned none ∧ (s.calls 0).packet = .delivered)
    (startUp ++ submitUpToIssue .read ++ submitUpToInsert ++ submitUpToReturn ++
      handlesPacket) (by decide)
  exact ⟨s, hs, delivered_once hrun⟩

/-- **A lost completion**: the worker looks the packet up before the submitting thread
inserts the task. -/
theorem completion_lost :
    ¬∀ (n : ℕ) (s : State n), (service n).Reachable s → ∀ o, (s.calls o).DeliveredOnce := by
  intro h
  obtain ⟨s, hrun, hs⟩ := Machine.exists_runWhere (M := service 1) (G := fun _ _ => True)
    (s := (service 1).init) (P := fun s => ¬(s.calls 0).DeliveredOnce)
    (startUp ++ submitUpToIssue .read ++ dropsPacket ++ submitUpToInsert ++
      submitUpToReturn) (by decide)
  exact hs (h 1 s hrun 0)

end Netknot.Win32
