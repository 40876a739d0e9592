import Netknot.Win32.Lifecycle

/-!
# Every Run of the Service is a Life of Each Operation

A step of the service moves at most one operation. `State.eventOf` names the operation and
what happens to it; `State.Moves` says all a step can do to the calls, the task set, the
queue and the packets in the workers' hands; and `service_life` is the projection: a run of
`service n` is, for every operation, a run of `lifecycle`, under the step condition the
steps of the service meet.

The history fields of a call stand for parts of the service. `State.CoherentAt` says which:
`registered` for the membership in `currentTasks`, `packet` for the place of the completion
packet in the queue or in the hands of one worker.

## Main results

* `service_coherent`: in every reachable state the history of every call is right.
* `life_of_run`, `service_life`: every run projects to a life of each operation.
* `service_projects`: what the life of an operation says about the service.
-/

namespace Netknot.Win32

/-- The operation whose packet a worker has in hand, and how far it is. -/
def WorkerPc.op? : WorkerPc → Option (OpId × Stage)
  | .handling o _ stage => some (o, stage)
  | _ => none

/-- What the queue of the completion port holds of operation `o` in each phase. -/
def PacketPhase.QueueHolds (o : OpId) : PacketPhase → List Packet → Prop
  | .queued, ps => ∃ sz, ps = [.op o sz]
  | .queuedFailed, ps => ∃ code, ps = [.opFailed o code]
  | _, ps => ps = []

namespace State

/-- The packets of an operation in the queue. -/
def packetsOf {n : ℕ} (s : State n) (o : OpId) : List Packet :=
  s.queue.filter fun p => p.op? = some o

/-- The operation a step is about, and what happens to it. -/
def eventOf {n : ℕ} (s : State n) : Label n → Option (OpId × Event)
  | .submit o choice => some (o, .submit choice)
  | .complete o _ => some (o, .complete)
  | .completeFailed o _ => some (o, .completeFailed)
  | .worker w choice =>
      match (s.workers w).pc with
      | .waiting =>
          match choice, s.queue with
          | .go, .op o _ :: _ => some (o, .dequeue)
          | .failed _, .opFailed o _ :: _ => some (o, .takeFailed)
          | _, _ => none
      | .handling o sz stage => some (o, .handle stage sz choice)
      | _ => none
  | .run _ => none

/-- Only a step of the submit call of `o` is an event of it. -/
theorem eventOf_eq_submit_iff {n : ℕ} {s : State n} {l : Label n} {o : OpId}
    {choice : SubmitChoice} : s.eventOf l = some (o, .submit choice) ↔ l = .submit o choice := by
  cases l with
  | submit o' choice' => simp [eventOf]
  | complete o' sz | completeFailed o' code | run choice' => simp [eventOf]
  | worker w choice' =>
      refine ⟨fun hev => ?_, fun hl => by cases hl⟩
      simp only [eventOf] at hev
      split at hev
      · split at hev <;> cases hev
      · cases hev
      · cases hev

/-- A condition on the steps of operation `o`, as a condition on the steps of the service:
the steps about `o` meet it, all others are free. -/
def OnCall {n : ℕ} (o : OpId) (H : Call → Event → Prop) (s : State n) (l : Label n) : Prop :=
  ∀ x ∈ s.eventOf l, x.1 = o → H (s.calls o) x.2

instance {n : ℕ} (o : OpId) (H : Call → Event → Prop) [∀ c ev, Decidable (H c ev)]
    (s : State n) (l : Label n) : Decidable (OnCall o H s l) :=
  inferInstanceAs (Decidable (∀ x ∈ s.eventOf l, x.1 = o → H (s.calls o) x.2))

/-- The history of the call of operation `o` is right. -/
structure CoherentAt {n : ℕ} (s : State n) (o : OpId) : Prop where
  sound : (s.calls o).Sound
  tasks : s.currentTasks.count o = (s.calls o).registered.toNat
  packets : (s.calls o).packet.QueueHolds o (s.packetsOf o)
  held : ∀ w stage, (s.workers w).pc.op? = some (o, stage) → (s.calls o).packet = .held stage
  holder : ∀ stage, (s.calls o).packet = .held stage →
    ∃ w, (s.workers w).pc.op? = some (o, stage)
  unique : ∀ w w' stage stage', (s.workers w).pc.op? = some (o, stage) →
    (s.workers w').pc.op? = some (o, stage') → w = w'

/-- The history of every call is right. -/
def Coherent {n : ℕ} (s : State n) : Prop := ∀ o, s.CoherentAt o

/-- **What a step can do.** Either it is about no operation, and nothing an operation can
see of the service changes; or it is about one, whose call takes the event, whose history
is right afterwards, and nothing that other operations can see changes. -/
inductive Moves {n : ℕ} (s : State n) : Option (OpId × Event) → State n → Prop
  | quiet {ev : Option (OpId × Event)} {t : State n} (hcalls : t.calls = s.calls)
      (htasks : t.currentTasks = s.currentTasks)
      (hpackets : ∀ o, t.packetsOf o = s.packetsOf o)
      (hworkers : ∀ w, (t.workers w).pc.op? = (s.workers w).pc.op?) : Moves s ev t
  | op {o : OpId} {ev : Event} {c : Call} {t : State n} (hc : (s.calls o).after ev = some c)
      (hcalls : t.calls = Function.update s.calls o c)
      (htasks : ∀ o', o' ≠ o → t.currentTasks.count o' = s.currentTasks.count o')
      (hpackets : ∀ o', o' ≠ o → t.packetsOf o' = s.packetsOf o')
      (hworkers : ∀ o', o' ≠ o → ∀ w stage,
        (t.workers w).pc.op? = some (o', stage) ↔ (s.workers w).pc.op? = some (o', stage))
      (hat : t.CoherentAt o) : Moves s (some (o, ev)) t

/-! ### Frames -/

/-- An operation that sees nothing of a step keeps its history right. -/
theorem CoherentAt.congr {n : ℕ} {s t : State n} {o : OpId} (h : s.CoherentAt o)
    (hcall : t.calls o = s.calls o) (htasks : t.currentTasks.count o = s.currentTasks.count o)
    (hpackets : t.packetsOf o = s.packetsOf o)
    (hworkers : ∀ w stage,
      (t.workers w).pc.op? = some (o, stage) ↔ (s.workers w).pc.op? = some (o, stage)) :
    t.CoherentAt o where
  sound := by rw [hcall]; exact h.sound
  tasks := by rw [htasks, hcall]; exact h.tasks
  packets := by rw [hcall, hpackets]; exact h.packets
  held := fun w stage hw => by
    rw [hcall]
    exact h.held w stage ((hworkers w stage).mp hw)
  holder := fun stage hp => by
    rw [hcall] at hp
    obtain ⟨w, hw⟩ := h.holder stage hp
    exact ⟨w, (hworkers w stage).mpr hw⟩
  unique := fun w w' stage stage' hw hw' =>
    h.unique w w' stage stage' ((hworkers w stage).mp hw) ((hworkers w' stage').mp hw')

/-- What a step can do keeps the history of every call right. -/
theorem Moves.coherent {n : ℕ} {s t : State n} {ev : Option (OpId × Event)} (h : s.Coherent)
    (hm : s.Moves ev t) : t.Coherent := by
  intro o
  cases hm with
  | quiet hcalls htasks hpackets hworkers =>
      refine (h o).congr (by rw [hcalls]) (by rw [htasks]) (hpackets o) fun w stage => ?_
      rw [hworkers w]
  | @op o' ev c _ hc hcalls htasks hpackets hworkers hat =>
      by_cases ho : o = o'
      · subst ho
        exact hat
      · refine (h o).congr ?_ (htasks o ho) (hpackets o ho) (hworkers o ho)
        rw [hcalls, Function.update_of_ne ho]

/-- What a step can do is, for each operation, nothing or the event. -/
theorem Moves.calls {n : ℕ} {s t : State n} {ev : Option (OpId × Event)}
    (hm : s.Moves ev t) (o : OpId) :
    t.calls o = s.calls o ∨
      ∃ e, ev = some (o, e) ∧ (s.calls o).after e = some (t.calls o) := by
  cases hm with
  | quiet hcalls htasks hpackets hworkers => exact .inl (by rw [hcalls])
  | @op o' ev c _ hc hcalls htasks hpackets hworkers hat =>
      by_cases ho : o = o'
      · subst ho
        refine .inr ⟨ev, rfl, ?_⟩
        rw [hcalls, Function.update_self]
        exact hc
      · refine .inl ?_
        rw [hcalls, Function.update_of_ne ho]

/-! ### The history of the operation that moves -/

/-- In a phase outside the queue, the queue holds nothing of the operation. -/
theorem queueHolds_iff_nil {o : OpId} {p : PacketPhase} {ps : List Packet}
    (hq : p ≠ .queued) (hqf : p ≠ .queuedFailed) : p.QueueHolds o ps ↔ ps = [] := by
  cases p <;> first | exact Iff.rfl | exact absurd rfl hq | exact absurd rfl hqf

/-- The call changed and no worker moved: the history stays right when the packet is in
hand as before. -/
theorem CoherentAt.of_call {n : ℕ} {s t : State n} {o : OpId} {c : Call} (h : s.CoherentAt o)
    (hcalls : t.calls = Function.update s.calls o c) (hsound : c.Sound)
    (htasks : t.currentTasks.count o = c.registered.toNat)
    (hpackets : c.packet.QueueHolds o (t.packetsOf o)) (hworkers : t.workers = s.workers)
    (hheld : ∀ stage, c.packet = .held stage ↔ (s.calls o).packet = .held stage) :
    t.CoherentAt o where
  sound := by rw [hcalls, Function.update_self]; exact hsound
  tasks := by rw [hcalls, Function.update_self]; exact htasks
  packets := by rw [hcalls, Function.update_self]; exact hpackets
  held := fun w stage hw => by
    rw [hworkers] at hw
    rw [hcalls, Function.update_self]
    exact (hheld stage).mpr (h.held w stage hw)
  holder := fun stage hp => by
    rw [hcalls, Function.update_self] at hp
    rw [hworkers]
    exact h.holder stage ((hheld stage).mp hp)
  unique := fun w w' stage stage' hw hw' => by
    rw [hworkers] at hw hw'
    exact h.unique w w' stage stage' hw hw'

/-- The call and one worker changed: the history stays right when no other worker has the
packet in hand and the new worker has it exactly in the stage the call says. -/
theorem CoherentAt.of_worker {n : ℕ} {s t : State n} {o : OpId} {c : Call} {w : Fin n}
    {v : Worker} (hw : ∀ w' stage, (s.workers w').pc.op? = some (o, stage) → w' = w)
    (hcalls : t.calls = Function.update s.calls o c) (hsound : c.Sound)
    (htasks : t.currentTasks.count o = c.registered.toNat)
    (hpackets : c.packet.QueueHolds o (t.packetsOf o))
    (hworkers : t.workers = Function.update s.workers w v)
    (hv : ∀ stage, v.pc.op? = some (o, stage) ↔ c.packet = .held stage) :
    t.CoherentAt o := by
  have hold : ∀ w' stage, (t.workers w').pc.op? = some (o, stage) →
      w' = w ∧ v.pc.op? = some (o, stage) := by
    intro w' stage hw'
    rw [hworkers] at hw'
    by_cases heq : w' = w
    · subst heq
      rw [Function.update_self] at hw'
      exact ⟨rfl, hw'⟩
    · rw [Function.update_of_ne heq] at hw'
      exact absurd (hw w' stage hw') heq
  constructor
  · rw [hcalls, Function.update_self]
    exact hsound
  · rw [hcalls, Function.update_self]
    exact htasks
  · rw [hcalls, Function.update_self]
    exact hpackets
  · intro w' stage hw'
    rw [hcalls, Function.update_self]
    exact (hv stage).mp (hold w' stage hw').2
  · intro stage hp
    rw [hcalls, Function.update_self] at hp
    refine ⟨w, ?_⟩
    rw [hworkers, Function.update_self]
    exact (hv stage).mpr hp
  · intro w' w'' stage stage' hw' hw''
    rw [(hold w' stage hw').1, (hold w'' stage' hw'').1]

/-- What another operation sees of a step of a worker: nothing, when neither the old nor
the new worker has its packet in hand. -/
theorem op?_update_iff {n : ℕ} {s t : State n} {w : Fin n} {v : Worker} {o : OpId}
    (hw : ∀ stage, (s.workers w).pc.op? ≠ some (o, stage))
    (hv : ∀ stage, v.pc.op? ≠ some (o, stage))
    (hworkers : t.workers = Function.update s.workers w v) (w' : Fin n) (stage : Stage) :
    (t.workers w').pc.op? = some (o, stage) ↔ (s.workers w').pc.op? = some (o, stage) := by
  rw [hworkers]
  by_cases hw' : w' = w
  · subst hw'
    rw [Function.update_self]
    exact ⟨fun h => absurd h (hv stage), fun h => absurd h (hw stage)⟩
  · rw [Function.update_of_ne hw']

/-! ### Submit calls -/

/-- A step of a submit call that answers with a call, in a state that differs in that call and in
the task set only, keeps the history right. -/
theorem CoherentAt.submit {n : ℕ} {s t : State n} {o : OpId} {choice : SubmitChoice}
    {c : Call} (h : s.CoherentAt o) (hstep : (s.calls o).Submits choice (.next c))
    (hcalls : t.calls = Function.update s.calls o c)
    (htasks : t.currentTasks = s.currentTasks) (hqueue : t.queue = s.queue)
    (hworkers : t.workers = s.workers) : t.CoherentAt o := by
  obtain ⟨hreg, -, hpacket, -, -⟩ := Call.submitFrame_of_submits h.sound hstep
  have hof : t.packetsOf o = s.packetsOf o := by rw [packetsOf, packetsOf, hqueue]
  refine h.of_call hcalls (h.sound.submit hstep) ?_ ?_ hworkers ?_
  · rw [htasks, hreg]
    exact h.tasks
  · have hp := h.packets
    rw [hof]
    rcases hpacket with hsame | ⟨hnot, hpend⟩
    · rw [hsame]
      exact hp
    · rw [hnot] at hp
      rw [hpend]
      exact hp
  · intro stage
    rcases hpacket with hsame | ⟨hnot, hpend⟩
    · rw [hsame]
    · rw [hnot, hpend]
      simp only [reduceCtorEq]

/-- The insert in `currentTasks` keeps the history right. -/
theorem CoherentAt.insert {n : ℕ} {s t : State n} {o : OpId} {choice : SubmitChoice}
    {c : Call} (h : s.CoherentAt o) (hstep : (s.calls o).Submits choice (.registers c))
    (hcalls : t.calls = Function.update s.calls o c)
    (htasks : t.currentTasks = o :: s.currentTasks) (hqueue : t.queue = s.queue)
    (hworkers : t.workers = s.workers) : t.CoherentAt o := by
  have hsound : c.Sound := h.sound.step (.register hstep)
  have hof : t.packetsOf o = s.packetsOf o := by rw [packetsOf, packetsOf, hqueue]
  cases hstep with
  | insert hpc =>
      have hunreg : (s.calls o).registered = false := by
        by_contra hne
        have hafter := h.sound.inserted (by simpa using hne)
        rw [hpc] at hafter
        exact Bool.false_ne_true hafter
      refine h.of_call hcalls hsound ?_ ?_ hworkers (fun _ => Iff.rfl)
      · rw [htasks, List.count_cons_self, h.tasks, hunreg]
        rfl
      · rw [hof]
        exact h.packets

/-- **A step of a submit call** moves its operation. -/
theorem moves_submit {n : ℕ} {s t : State n} {o : OpId} {choice : SubmitChoice}
    (h : s.Coherent) (hstep : s.submitStep o choice = some t) :
    s.Moves (some (o, .submit choice)) t := by
  obtain ⟨a, hsub, rfl⟩ := Option.map_eq_some_iff.mp hstep
  cases a with
  | next c =>
      refine .op (c := c) ?_ rfl (fun _ _ => rfl) (fun _ _ => rfl) (fun _ _ _ _ => Iff.rfl) ?_
      · simp only [Call.after, Call.submitted, hsub]
      · exact (h o).submit (Call.submits_of_submit hsub) rfl rfl rfl rfl
  | registers c =>
      refine .op (c := c) ?_ rfl (fun o' ho => ?_) (fun _ _ => rfl) (fun _ _ _ _ => Iff.rfl) ?_
      · simp only [Call.after, Call.submitted, hsub]
      · exact List.count_cons_of_ne (Ne.symm ho)
      · exact (h o).insert (Call.submits_of_submit hsub) rfl rfl rfl rfl
  | aborts reason => exact .quiet rfl rfl (fun _ => rfl) (fun _ => rfl)

/-! ### The kernel -/

/-- A packet queued for a pending operation keeps the history right when the state holds it and
nothing else changed. -/
theorem CoherentAt.enqueue {n : ℕ} {s t : State n} {o : OpId} {c : Call} {p : Packet}
    (h : s.CoherentAt o) (hpending : (s.calls o).packet = .pending)
    (hcalls : t.calls = Function.update s.calls o c) (hsound : c.Sound)
    (hreg : c.registered = (s.calls o).registered)
    (htasks : t.currentTasks = s.currentTasks) (hqueue : t.queue = s.queue ++ [p])
    (hworkers : t.workers = s.workers) (hp : p.op? = some o)
    (hholds : c.packet.QueueHolds o [p])
    (hheld : ∀ stage, c.packet ≠ .held stage) : t.CoherentAt o := by
  have hnil : s.packetsOf o = [] := by
    have hholds := h.packets
    rw [hpending] at hholds
    exact hholds
  have hof : t.packetsOf o = [p] := by
    rw [packetsOf, hqueue, List.filter_append, ← packetsOf, hnil]
    simp [hp]
  refine h.of_call hcalls hsound ?_ (hof ▸ hholds) hworkers fun stage => ?_
  · rw [htasks, hreg]
    exact h.tasks
  · rw [hpending]
    exact ⟨fun hh => absurd hh (hheld stage), fun hh => by cases hh⟩

/-- A packet of operation `o` at the end of the queue is not seen by another operation. -/
theorem packetsOf_enqueue {n : ℕ} {s t : State n} {o o' : OpId} {p : Packet} (ho : o' ≠ o)
    (hp : p.op? = some o) (hqueue : t.queue = s.queue ++ [p]) :
    t.packetsOf o' = s.packetsOf o' := by
  rw [packetsOf, packetsOf, hqueue, List.filter_append]
  simp [hp, Ne.symm ho]

/-- **The kernel completes** a pending operation. -/
theorem moves_complete {n : ℕ} {s t : State n} {o : OpId} {sz : ℕ} (h : s.Coherent)
    (hstep : s.completeStep o sz = some t) : s.Moves (some (o, .complete)) t := by
  obtain ⟨hk, rfl⟩ := Option.ite_none_right_eq_some.mp hstep |>.imp_right Option.some.inj
  have hpending : (s.calls o).packet = .pending := (h o).sound.pending.mp hk
  have hafter : (s.calls o).after .complete = some (s.calls o).complete := by
    rw [Call.after, if_pos hpending]
  refine .op hafter rfl (fun _ _ => rfl) (fun o' ho => packetsOf_enqueue ho rfl rfl)
    (fun _ _ _ _ => Iff.rfl) ?_
  exact (h o).enqueue hpending rfl ((h o).sound.step (.complete hpending)) rfl rfl rfl rfl rfl
    ⟨sz, rfl⟩ fun _ hh => by cases hh

/-- **The kernel fails** a pending operation. -/
theorem moves_completeFailed {n : ℕ} {s t : State n} {o : OpId} {code : ℕ} (h : s.Coherent)
    (hstep : s.completeFailedStep o code = some t) :
    s.Moves (some (o, .completeFailed)) t := by
  obtain ⟨hk, rfl⟩ := Option.ite_none_right_eq_some.mp hstep |>.imp_right Option.some.inj
  have hpending : (s.calls o).packet = .pending := (h o).sound.pending.mp hk
  have hafter : (s.calls o).after .completeFailed = some (s.calls o).completeFailed := by
    rw [Call.after, if_pos hpending]
  refine .op hafter rfl (fun _ _ => rfl) (fun o' ho => packetsOf_enqueue ho rfl rfl)
    (fun _ _ _ _ => Iff.rfl) ?_
  exact (h o).enqueue hpending rfl ((h o).sound.step (.completeFailed hpending)) rfl rfl rfl rfl
    rfl ⟨code, rfl⟩ fun _ hh => by cases hh

/-! ### Taking a packet -/

/-- When the head of the queue is a packet of operation `o`, the call says so, the rest of the
queue holds none, and no worker has it in hand. -/
theorem CoherentAt.head {n : ℕ} {s : State n} {o : OpId} {p : Packet} {rest : List Packet}
    (h : s.CoherentAt o) (hqueue : s.queue = p :: rest) (hp : p.op? = some o) :
    (s.calls o).packet.QueueHolds o [p] ∧ rest.filter (fun p => p.op? = some o) = [] ∧
      (∀ stage, (s.calls o).packet ≠ .held stage) := by
  have hof : s.packetsOf o = p :: rest.filter fun p => p.op? = some o := by
    rw [packetsOf, hqueue, List.filter_cons_of_pos (by simpa using hp)]
  have hholds := h.packets
  rw [hof] at hholds
  cases hpacket : (s.calls o).packet with
  | queued =>
      rw [hpacket] at hholds
      obtain ⟨sz, hsz⟩ := hholds
      obtain ⟨rfl, hrest⟩ := List.cons.inj hsz
      exact ⟨⟨sz, rfl⟩, hrest, fun _ hh => by cases hh⟩
  | queuedFailed =>
      rw [hpacket] at hholds
      obtain ⟨code, hcode⟩ := hholds
      obtain ⟨rfl, hrest⟩ := List.cons.inj hcode
      exact ⟨⟨code, rfl⟩, hrest, fun _ hh => by cases hh⟩
  | notIssued | pending | held | delivered | discarded | failed =>
      rw [hpacket] at hholds
      exact absurd hholds (List.cons_ne_nil _ _)

/-- The packet of operation `o` leaves the queue; another operation does not see it. -/
theorem packetsOf_dequeue {n : ℕ} {s t : State n} {o o' : OpId} {p : Packet}
    {rest : List Packet} (ho : o' ≠ o) (hp : p.op? = some o) (hqueue : s.queue = p :: rest)
    (hrest : t.queue = rest) : t.packetsOf o' = s.packetsOf o' := by
  rw [packetsOf, packetsOf, hqueue, hrest, List.filter_cons_of_neg (by simp [hp, Ne.symm ho])]

/-- **A worker takes a packet** of operation `o` from the head of the queue. -/
theorem moves_take {n : ℕ} {s t : State n} {o : OpId} {ev : Event} {c : Call} {w : Fin n}
    {v : Worker} {p : Packet} {rest : List Packet} (h : s.Coherent)
    (hw : (s.workers w).pc = .waiting) (hqueue : s.queue = p :: rest) (hp : p.op? = some o)
    (hc : (s.calls o).after ev = some c) (hreg : c.registered = (s.calls o).registered)
    (hcalls : t.calls = Function.update s.calls o c)
    (htasks : t.currentTasks = s.currentTasks) (hrest : t.queue = rest)
    (hworkers : t.workers = Function.update s.workers w v)
    (hnq : c.packet ≠ .queued) (hnqf : c.packet ≠ .queuedFailed)
    (hother : ∀ o' stage, v.pc.op? = some (o', stage) → o' = o)
    (hv : ∀ stage, v.pc.op? = some (o, stage) ↔ c.packet = .held stage) :
    s.Moves (some (o, ev)) t := by
  obtain ⟨-, hnil, hfree⟩ := (h o).head hqueue hp
  have hsound : c.Sound := (h o).sound.step (Call.steps_of_after hc)
  have hidle : ∀ o' stage, (s.workers w).pc.op? ≠ some (o', stage) := by
    intro o' stage hh
    rw [hw] at hh
    cases hh
  refine .op hc hcalls (fun o' _ => by rw [htasks])
    (fun o' ho => packetsOf_dequeue ho hp hqueue hrest)
    (fun o' ho => op?_update_iff (hidle o') (fun stage hh => ho (hother o' stage hh)) hworkers)
    ?_
  refine CoherentAt.of_worker (fun w' stage hw' => ?_) hcalls hsound ?_ ?_ hworkers hv
  · exact absurd ((h o).held w' stage hw') (hfree stage)
  · rw [htasks, hreg]
    exact (h o).tasks
  · rw [queueHolds_iff_nil hnq hnqf, packetsOf, hrest]
    exact hnil

/-- **A failed `GetQueuedCompletionStatus`** ends the process or sends the worker on its
way out; the operations see neither. -/
theorem portError_eq {n : ℕ} (s : State n) (w : Fin n) (code : ℕ) (allocated : Bool) :
    ∃ v : Worker, (v = s.workers w ∨ v.pc = .returning) ∧
      (s.portError w code allocated).calls = s.calls ∧
      (s.portError w code allocated).currentTasks = s.currentTasks ∧
      (s.portError w code allocated).queue = s.queue ∧
      (s.portError w code allocated).workers = Function.update s.workers w v := by
  rw [portError]
  split
  · exact ⟨s.workers w, .inl rfl, rfl, rfl, rfl, (Function.update_eq_self w s.workers).symm⟩
  · rename_i e he
    exact ⟨{ pc := .returning, exceptionStorage := e }, .inr rfl, rfl, rfl, rfl, rfl⟩

/-- The worker is left without a packet if it had none. -/
theorem portError_idle {n : ℕ} (s : State n) {w : Fin n} (code : ℕ) (allocated : Bool)
    (hidle : (s.workers w).pc.op? = none) :
    ∃ v : Worker, v.pc.op? = none ∧ (s.portError w code allocated).calls = s.calls ∧
      (s.portError w code allocated).currentTasks = s.currentTasks ∧
      (s.portError w code allocated).queue = s.queue ∧
      (s.portError w code allocated).workers = Function.update s.workers w v := by
  obtain ⟨v, hv, hrest⟩ := portError_eq s w code allocated
  refine ⟨v, ?_, hrest⟩
  rcases hv with rfl | hv
  · exact hidle
  · rw [hv]
    rfl

/-- A worker without a packet moves to a program point without one. -/
theorem op?_update_idle {n : ℕ} {s t : State n} {w : Fin n} {v : Worker}
    (hw : (s.workers w).pc.op? = none) (hv : v.pc.op? = none)
    (hworkers : t.workers = Function.update s.workers w v) (w' : Fin n) :
    (t.workers w').pc.op? = (s.workers w').pc.op? := by
  rw [hworkers]
  by_cases hw' : w' = w
  · subst hw'
    rw [Function.update_self, hv, hw]
  · rw [Function.update_of_ne hw']

/-- The packet at the head of the queue is one of its operation. -/
theorem packet_of_head {n : ℕ} {s : State n} (h : s.Coherent) {o : OpId} {sz : ℕ}
    {rest : List Packet} (hqueue : s.queue = .op o sz :: rest) : (s.calls o).packet = .queued := by
  obtain ⟨hholds, -, -⟩ := (h o).head hqueue rfl
  cases hpacket : (s.calls o).packet <;> rw [hpacket] at hholds <;>
    simp [PacketPhase.QueueHolds] at hholds

/-- A failure packet at the head of the queue is one of its operation. -/
theorem failedPacket_of_head {n : ℕ} {s : State n} (h : s.Coherent) {o : OpId} {code : ℕ}
    {rest : List Packet} (hqueue : s.queue = .opFailed o code :: rest) :
    (s.calls o).packet = .queuedFailed := by
  obtain ⟨hholds, -, -⟩ := (h o).head hqueue rfl
  cases hpacket : (s.calls o).packet <;> rw [hpacket] at hholds <;>
    simp [PacketPhase.QueueHolds] at hholds

/-- **A step of a worker at the head of its loop** moves one operation at most. -/
theorem moves_waiting {n : ℕ} {s t : State n} {w : Fin n} {choice : WorkerChoice}
    (h : s.Coherent) (hw : (s.workers w).pc = .waiting)
    (hstep : s.waitingStep w choice = some t) :
    s.Moves (s.eventOf (.worker w choice)) t := by
  have hidle : (s.workers w).pc.op? = none := by rw [hw]; rfl
  cases takes_of_waitingStep hstep with
  | zero hqueue =>
      refine .quiet rfl rfl (fun o => ?_) (op?_update_idle hidle rfl rfl)
      simp [packetsOf, setPc, setWorker, hqueue, Packet.op?]
  | @op o sz rest hqueue =>
      have hevent : s.eventOf (.worker w .go) = some (o, .dequeue) := by
        simp only [eventOf, hw, hqueue]
      rw [hevent]
      refine moves_take (c := (s.calls o).atStage .dequeued) h hw hqueue rfl ?_ rfl rfl rfl
        rfl rfl (fun hh => by cases hh) (fun hh => by cases hh) ?_ ?_
      · rw [Call.after, if_pos (packet_of_head h hqueue)]
      · rintro o' stage hh
        exact (Prod.mk.inj (Option.some.inj hh)).1.symm
      · intro stage
        simp [WorkerPc.op?, Call.atStage]
  | @opFailed o code rest hqueue allocated =>
      have hevent : s.eventOf (.worker w (.failed allocated)) = some (o, .takeFailed) := by
        simp only [eventOf, hw, hqueue]
      obtain ⟨v, hv, hcalls, htasks, hrest, hworkers⟩ := portError_idle
        (({ s with queue := rest } : State n).setCall o (s.calls o).takeFailed) code allocated
        hidle
      rw [hevent]
      refine moves_take (c := (s.calls o).takeFailed) h hw hqueue rfl ?_ rfl hcalls htasks
        hrest hworkers (fun hh => by cases hh) (fun hh => by cases hh) ?_ ?_
      · rw [Call.after, if_pos (failedPacket_of_head h hqueue)]
      · intro o' stage hh
        rw [hv] at hh
        cases hh
      · intro stage
        rw [hv]
        simp [Call.takeFailed]
  | portFailed code allocated =>
      obtain ⟨v, hv, hcalls, htasks, hrest, hworkers⟩ := portError_idle s code allocated hidle
      exact .quiet hcalls htasks (fun o => by rw [packetsOf, packetsOf, hrest])
        (op?_update_idle hidle hv hworkers)

/-! ### A packet in hand -/

/-- **The worker with the packet of operation `o` in hand** moves. -/
theorem moves_inHand {n : ℕ} {s t : State n} {w : Fin n} {o : OpId} {sz : ℕ} {stage : Stage}
    {choice : WorkerChoice} {c : Call} {v : Worker} (h : s.Coherent)
    (hw : (s.workers w).pc = .handling o sz stage)
    (hc : (s.calls o).handle sz stage choice = some c)
    (hcalls : t.calls = Function.update s.calls o c)
    (htasks : ∀ o', o' ≠ o → t.currentTasks.count o' = s.currentTasks.count o')
    (hcount : t.currentTasks.count o = c.registered.toNat) (hqueue : t.queue = s.queue)
    (hworkers : t.workers = Function.update s.workers w v)
    (hnq : c.packet ≠ .queued) (hnqf : c.packet ≠ .queuedFailed)
    (hother : ∀ o' stage, v.pc.op? = some (o', stage) → o' = o)
    (hv : ∀ stage, v.pc.op? = some (o, stage) ↔ c.packet = .held stage) :
    s.Moves (some (o, .handle stage sz choice)) t := by
  have hop : (s.workers w).pc.op? = some (o, stage) := by rw [hw]; rfl
  have hheld : (s.calls o).packet = .held stage := (h o).held w stage hop
  have hafter : (s.calls o).after (.handle stage sz choice) = some c := by
    rw [Call.after, if_pos hheld]
    exact hc
  have hof : ∀ o', t.packetsOf o' = s.packetsOf o' := fun o' => by
    rw [packetsOf, packetsOf, hqueue]
  have hnil : s.packetsOf o = [] := by
    have hholds := (h o).packets
    rw [hheld] at hholds
    exact hholds
  refine .op hafter hcalls htasks (fun o' _ => hof o') (fun o' ho => ?_) ?_
  · refine op?_update_iff (fun stage' hh => ?_) (fun stage' hh => ho (hother o' stage' hh))
      hworkers
    rw [hop] at hh
    exact ho (Prod.mk.inj (Option.some.inj hh)).1.symm
  · refine CoherentAt.of_worker (fun w' stage' hw' => (h o).unique w' w stage' stage hw' hop)
      hcalls ((h o).sound.step (Call.steps_of_after hafter)) hcount ?_ hworkers hv
    rw [queueHolds_iff_nil hnq hnqf, hof, hnil]

/-- A step that takes the worker to its next stage moves the operation of its packet. -/
theorem moves_advance {n : ℕ} {s s' : State n} {w : Fin n} {o : OpId} {sz : ℕ}
    {stage stage' : Stage} {choice : WorkerChoice} {c : Call} (h : s.Coherent)
    (hw : (s.workers w).pc = .handling o sz stage)
    (hc : (s.calls o).handle sz stage choice = some c) (hp : c.packet = .held stage')
    (hreg : c.registered = (s.calls o).registered) (hcalls : s'.calls = s.calls)
    (htasks : s'.currentTasks = s.currentTasks) (hqueue : s'.queue = s.queue)
    (hworkers : s'.workers = s.workers) :
    s.Moves (some (o, .handle stage sz choice)) (s'.advance w o sz c stage') := by
  refine moves_inHand (t := s'.advance w o sz c stage') (c := c) h hw hc ?_ (fun o' _ => ?_) ?_
    hqueue ?_ ?_ ?_ ?_ ?_ (v := { s'.workers w with pc := .handling o sz stage' })
  · rw [← hcalls]
    rfl
  · rw [← htasks]
    rfl
  · rw [hreg, ← (h o).tasks, ← htasks]
    rfl
  · rw [← hworkers]
    rfl
  · simp [hp]
  · simp [hp]
  · rintro o' stage'' hh
    exact (Prod.mk.inj (Option.some.inj hh)).1.symm
  · intro stage''
    simp [WorkerPc.op?, hp]

@[simp] theorem wakeAll_calls {n : ℕ} (s : State n) : s.wakeAll.calls = s.calls := by
  rw [wakeAll]
  split <;> rfl

@[simp] theorem wakeAll_currentTasks {n : ℕ} (s : State n) :
    s.wakeAll.currentTasks = s.currentTasks := by
  rw [wakeAll]
  split <;> rfl

@[simp] theorem wakeAll_queue {n : ℕ} (s : State n) : s.wakeAll.queue = s.queue := by
  rw [wakeAll]
  split <;> rfl

@[simp] theorem wakeAll_workers {n : ℕ} (s : State n) : s.wakeAll.workers = s.workers := by
  rw [wakeAll]
  split <;> rfl

/-- **The lookup** of the task in `currentTasks` moves the operation of the packet. -/
theorem moves_lookup {n : ℕ} {s : State n} {w : Fin n} {o : OpId} {sz : ℕ} (h : s.Coherent)
    (hw : (s.workers w).pc = .handling o sz .locked) :
    s.Moves (some (o, .handle .locked sz .go)) (s.lookup w o sz) := by
  have htasks : s.currentTasks.count o = (s.calls o).registered.toNat := (h o).tasks
  rw [lookup]
  split
  · rename_i hmem
    have hreg : (s.calls o).registered = true := by
      by_contra hne
      rw [Bool.not_eq_true _ |>.mp hne] at htasks
      exact List.count_eq_zero.mp htasks hmem
    rw [hreg] at htasks
    refine moves_inHand (c := (s.calls o).remove)
      (v := { s.workers w with pc := .handling o sz .removed }) h hw ?_ rfl (fun o' ho => ?_) ?_
      rfl rfl (fun hh => by cases hh) (fun hh => by cases hh) ?_ ?_
    · simp [Call.handle, hreg]
    · exact List.count_erase_of_ne ho
    · change (s.currentTasks.erase o).count o = 0
      rw [List.count_erase_self, htasks]
      rfl
    · rintro o' stage hh
      exact (Prod.mk.inj (Option.some.inj hh)).1.symm
    · intro stage
      simp [WorkerPc.op?, Call.remove]
  · rename_i hmem
    have hreg : (s.calls o).registered = false := by
      by_contra hne
      rw [Bool.not_eq_false _ |>.mp hne] at htasks
      exact hmem (List.count_pos_iff.mp (by rw [htasks]; exact Nat.one_pos))
    refine moves_advance h hw ?_ rfl rfl rfl rfl rfl rfl
    simp [Call.handle, hreg]

/-- The return of a callback moves the operation of the packet. -/
theorem moves_callbackReturned {n : ℕ} {s : State n} {w : Fin n} {o : OpId} {sz : ℕ}
    {e : ExceptionPointer} (h : s.Coherent)
    (hw : (s.workers w).pc = .handling o sz .callback) :
    s.Moves (some (o, .handle .callback sz (.ret e))) (s.callbackReturned w o sz e) := by
  rw [callbackReturned]
  refine moves_inHand h hw rfl rfl (fun _ _ => rfl) ((h o).tasks) rfl rfl
    (fun hh => by cases hh) (fun hh => by cases hh) ?_ ?_
  · rintro o' stage hh
    exact (Prod.mk.inj (Option.some.inj hh)).1.symm
  · intro stage
    simp [WorkerPc.op?, Call.atStage]

/-- `rawTask` goes out of scope, and the worker is done with the packet. -/
theorem moves_dropRaw {n : ℕ} {s : State n} {w : Fin n} {o : OpId} {sz : ℕ}
    {exits hit : Bool} (h : s.Coherent)
    (hw : (s.workers w).pc = .handling o sz (.dropRaw exits hit)) :
    s.Moves (some (o, .handle (.dropRaw exits hit) sz .go))
      ((s.setCall o ((s.calls o).dropRaw hit)).setPc w
        (if exits then .exited else .waiting)) := by
  have hidle : (if exits then WorkerPc.exited else WorkerPc.waiting).op? = none := by
    cases exits <;> rfl
  refine moves_inHand (c := (s.calls o).dropRaw hit)
    (v := { s.workers w with pc := if exits then .exited else .waiting }) h hw rfl rfl
    (fun _ _ => rfl) ((h o).tasks) rfl rfl ?_ ?_ ?_ ?_
  · cases hit <;> exact fun hh => by cases hh
  · cases hit <;> exact fun hh => by cases hh
  · intro o' stage hh
    rw [hidle] at hh
    cases hh
  · intro stage
    rw [hidle]
    cases hit <;> simp [Call.dropRaw]

/-- **`_workerThreadProc` with a packet in hand** moves the operation of the packet. -/
theorem moves_handling {n : ℕ} {s t : State n} {w : Fin n} {o : OpId} {sz : ℕ} {stage : Stage}
    {choice : WorkerChoice} (h : s.Coherent) (hw : (s.workers w).pc = .handling o sz stage)
    (hstep : s.handlingStep w o sz stage choice = some t) :
    s.Moves (some (o, .handle stage sz choice)) t := by
  cases handles_of_handlingStep hstep with
  | hold | dropRef | addTransferred | setDone | invoke | stopStore | dropTask exits =>
      exact moves_advance h hw rfl rfl rfl rfl rfl rfl rfl
  | lookup => exact moves_lookup h hw
  | stop =>
      unfold stopGuard
      split
      · exact moves_advance h hw rfl rfl rfl rfl rfl rfl rfl
      · exact .quiet rfl rfl (fun _ => rfl) (fun _ => rfl)
  | stopWake | fail => exact moves_advance h hw rfl rfl rfl (by simp) (by simp) (by simp) (by simp)
  | ret e => exact moves_callbackReturned h hw
  | dropRaw exits hit => exact moves_dropRaw h hw

/-- **A step of a worker** moves one operation at most. -/
theorem moves_worker {n : ℕ} {s t : State n} {w : Fin n} {choice : WorkerChoice}
    (h : s.Coherent) (hstep : s.workerStep w choice = some t) :
    s.Moves (s.eventOf (.worker w choice)) t := by
  rw [workerStep] at hstep
  split at hstep
  · rename_i hw
    exact moves_waiting h hw hstep
  · rename_i o sz stage hw
    have hevent : s.eventOf (.worker w choice) = some (o, .handle stage sz choice) := by
      simp only [eventOf, hw]
    rw [hevent]
    exact moves_handling h hw hstep
  · rename_i hw
    obtain ⟨-, rfl⟩ := Option.ite_none_right_eq_some.mp hstep |>.imp_right Option.some.inj
    exact .quiet rfl rfl (fun _ => rfl)
      (op?_update_idle (s := s) (w := w) (by rw [hw]; rfl) rfl rfl)
  · cases hstep
  · cases hstep

/-! ### `run()` -/

/-- A worker whose exception is moved out holds what it held. -/
theorem moves_takeException {n : ℕ} (s : State n) (i : Fin n) (next : RunPc)
    (ev : Option (OpId × Event)) : s.Moves ev (s.takeException i next) := by
  rw [takeException]
  split
  · exact .quiet rfl rfl (fun _ => rfl) (fun _ => rfl)
  · refine .quiet rfl rfl (fun _ => rfl) fun w => ?_
    by_cases hw : w = i
    · subst hw
      simp [setWorker]
    · simp [setWorker, Function.update_of_ne hw]

/-- **A step of `run()`** is seen by no operation. -/
theorem moves_run {n : ℕ} {s t : State n} {choice : RunChoice}
    (hstep : s.runStep choice = some t) (ev : Option (OpId × Event)) : s.Moves ev t := by
  cases runs_of_runStep hstep with
  | scan i hpc | collect i hpc => exact moves_takeException s _ _ ev
  | resume i hpc hw =>
      exact .quiet rfl rfl (fun _ => rfl)
        (op?_update_idle (s := s) (w := i) (by rw [hw]; rfl) rfl rfl)
  | post i hpc =>
      refine .quiet rfl rfl (fun o => ?_) (fun _ => rfl)
      simp [packetsOf, Packet.op?]
  | guard hpc hrunning | enter hpc hidle | spurious hpc | scanned hpc hall | start hpc
  | skip i hpc hw | resumed hpc hall | sleep hpc | posted hpc hall | join i hpc hw
  | joined hpc hall | collected hpc hall =>
      exact .quiet rfl rfl (fun _ => rfl) (fun _ => rfl)

/-! ### Every step, every run -/

/-- **A step of the service** moves what its event says. -/
theorem moves_of_step {n : ℕ} {s t : State n} {l : Label n} (h : s.Coherent)
    (hstep : s.step l = some t) : s.Moves (s.eventOf l) t := by
  unfold step at hstep
  split at hstep
  · cases hstep
  · cases l with
    | submit o choice => exact moves_submit h hstep
    | complete o sz => exact moves_complete h hstep
    | completeFailed o code => exact moves_completeFailed h hstep
    | worker w choice => exact moves_worker h hstep
    | run choice => exact moves_run hstep _

/-- An operation is left where it is, or makes a step of its own life. The submit call of the
operation makes that step if it is one of the call. -/
theorem steps_of_step {n : ℕ} {s t : State n} {l : Label n} {o : OpId} (h : s.Coherent)
    (hstep : s.step l = some t) : t.calls o = s.calls o ∨
      ∃ ev, Call.Steps (s.calls o) ev (t.calls o) ∧
        ∀ choice, ev = .submit choice → l = .submit o choice := by
  rcases (moves_of_step h hstep).calls o with hsame | ⟨ev, hev, hafter⟩
  · exact .inl hsame
  · refine .inr ⟨ev, Call.steps_of_after hafter, ?_⟩
    rintro choice rfl
    exact eventOf_eq_submit_iff.mp hev

/-- In the start state the history of every call is right. -/
theorem coherent_init (n : ℕ) : (init n).Coherent := fun _ =>
  { sound := Call.sound_init
    tasks := rfl
    packets := rfl
    held := fun _ _ hh => by cases hh
    holder := fun _ hh => by cases hh
    unique := fun _ _ _ _ hh => by cases hh }

end State

/-- **In every run** the history of every call is right. -/
theorem service_coherent {n : ℕ} {G : State n → Label n → Prop} {s : State n}
    (h : (service n).RunWhere G (service n).init s) : s.Coherent :=
  h.invariant (State.coherent_init n) fun _ _ _ hI _ hs => (State.moves_of_step hI hs).coherent hI

/-- **The projection.** A run of the service from a state whose history is right is, for
every operation, a run of its life; when the steps about the operation meet `H` in the
service, they meet it in that life. -/
theorem life_of_run {n : ℕ} {H : Call → Event → Prop} {s t : State n} {o : OpId}
    (hs : s.Coherent) (h : (service n).RunWhere (State.OnCall o H) s t) :
    lifecycle.RunWhere H (s.calls o) (t.calls o) := by
  refine Machine.RunWhere.simulate State.Coherent (fun s => s.calls o) h hs
    (fun t l u hI hs => (State.moves_of_step hI hs).coherent hI) ?_
  intro t l u hI hG hstep
  rcases (State.moves_of_step hI hstep).calls o with hsame | ⟨ev, hev, hafter⟩
  · rw [hsame]
    exact .refl
  · exact .single (hG (o, ev) hev rfl) hafter

/-- A run from the start state projects to a run of the life of an operation. -/
theorem service_life {n : ℕ} {H : Call → Event → Prop} {s : State n} {o : OpId}
    (h : (service n).RunWhere (State.OnCall o H) (service n).init s) :
    lifecycle.RunWhere H lifecycle.init (s.calls o) :=
  life_of_run (State.coherent_init n) h

/-- A run under no condition on the steps of operations projects too. -/
theorem life_of_any_run {n : ℕ} {G : State n → Label n → Prop} {s t : State n}
    (hs : s.Coherent) (h : (service n).RunWhere G s t) (o : OpId) :
    lifecycle.RunWhere (fun _ _ => True) (s.calls o) (t.calls o) :=
  life_of_run hs (h.mono fun _ _ _ _ _ _ => trivial)

/-- In a reachable state every call is at a point of a life. -/
theorem reachable_life {n : ℕ} {s : State n} (h : (service n).Reachable s) (o : OpId) :
    lifecycle.Reachable (s.calls o) :=
  life_of_any_run (State.coherent_init n) h o

/-- **The service refines the lives of its operations.** In every state of every run each
operation is where it can come to by itself; and where it is says what the service holds of it:
how often its task is in the set, which of its packets is in the queue, and which worker, if any,
has the packet in hand. -/
theorem service_projects {n : ℕ} {s : State n} (h : (service n).Reachable s) (o : OpId) :
    lifecycle.Reachable (s.calls o) ∧
      s.currentTasks.count o = (s.calls o).registered.toNat ∧
      (s.calls o).packet.QueueHolds o (s.packetsOf o) ∧
      ∀ stage, (s.calls o).packet = .held stage ↔
        ∃! w, (s.workers w).pc.op? = some (o, stage) := by
  have hcoh : s.CoherentAt o := service_coherent h o
  refine ⟨reachable_life h o, hcoh.tasks, hcoh.packets, fun stage => ⟨fun hheld => ?_, ?_⟩⟩
  · obtain ⟨w, hw⟩ := hcoh.holder stage hheld
    exact ⟨w, hw, fun w' hw' => hcoh.unique w' w stage stage hw' hw⟩
  · rintro ⟨w, hw, -⟩
    exact hcoh.held w stage hw

/-- A read that the kernel answered before its task is in the set. -/
theorem service_projects_read :
    ∃ s : State 1, lifecycle.Reachable (s.calls 0) ∧ s.currentTasks.count 0 = 0 ∧
      ∃ sz, s.packetsOf 0 = [.op 0 sz] := by
  obtain ⟨s, hrun, hpacket, hregistered⟩ := Machine.exists_runWhere (M := service 1)
    (G := fun _ _ => True) (s := (service 1).init)
    (P := fun s => (s.calls 0).packet = .queued ∧ (s.calls 0).registered = false)
    [.submit 0 (.call .read false), .submit 0 (.alloc true), .submit 0 (.alloc true),
      .submit 0 (.issue .success), .complete 0 5] (by decide)
  obtain ⟨hlife, htasks, hqueue, -⟩ := service_projects hrun 0
  rw [hregistered] at htasks
  rw [hpacket] at hqueue
  exact ⟨s, hlife, htasks, hqueue⟩

end Netknot.Win32
