import Netknot.Http.Exits
import Netknot.Lib.Machine

/-!
# The Operations of a Connection

A connection of the server from its accept to its end: `onAccepted` posts the first read, an
outstanding operation completes, and its callback runs and may post another. The completions
and the callbacks are steps of their own, so with two operations outstanding they would come
in any order; the bytes a callback finds are chosen freely, whatever another connection wrote
into the shared buffer.

A submission that returns an exception leaves nothing outstanding. One that returns none may still
be lost: the operation fails in the kernel, or the error of its submission finds no memory, or its
packet is dropped before the task is in the set. No callback comes of it then.

## Main results

* `sequential_of_run`: the invariant of every run; the log of a connection is a number of
  reads, then at most one dispatch, then at most one write.
* `one_outstanding`: at most one operation is outstanding, a completion posts at most one, and
  nothing is done after the response was posted.
-/

namespace Netknot.Http

/-- `HttpWriteAsyncCallback::onStatusChanged`; `none` is `std::terminate`. -/
def HttpWriteAsyncCallback.onStatusChanged : AsyncTaskStatus → Option ExceptionPointer
  | .done | .interrupted => some none
  | .ready | .running => none

/-- The operation is a write of the response. -/
def Op.isWrite : Op → Bool
  | .write _ => true
  | .read | .body _ => false

/-- The operation an action submits. -/
def Action.op? : Action → Option Op
  | .post op => some op
  | .dispatch _ => none

/-- The action dispatches the request. -/
def Action.isDispatch : Action → Bool
  | .dispatch _ => true
  | .post _ => false

/-- The action posts a read. -/
def Action.isRead : Action → Bool
  | .post op => !op.isWrite
  | .dispatch _ => false

/-- The operations a call submitted. -/
def submitted (log : List Action) : List Op := log.filterMap Action.op?

/-- What there is of a connection. -/
structure Operations where
  reader : HttpReadAsyncCallback := {}
  /-- `onAccepted` has run. -/
  accepted : Bool := false
  /-- The operations that are submitted and did not complete yet. -/
  outstanding : List Op := []
  /-- The operations that completed and whose callback did not return yet. -/
  completed : List Op := []
  /-- The process has ended. -/
  terminated : Bool := false
  /-- History: what `onAccepted` and the callbacks did, in this order. -/
  log : List Action := []

/-- What happens to a connection. -/
inductive OpLabel
  /-- `onAccepted`; the submission of the first read returns this. -/
  | accept (submit : ExceptionPointer)
  /-- An operation completes; a read brings these bytes. -/
  | complete (op : Op) (bytes : Bytes)
  /-- An operation fails, or its packet is dropped: its callback is never called. -/
  | lose (op : Op)
  /-- A worker runs the callback of an operation that completed; a read finds `sv` in its
  buffer. -/
  | callback (op : Op) (ch : Choices) (status : AsyncTaskStatus) (sv : Bytes)

namespace Operations

/-- A call has returned. -/
def took (s : Operations) (reader : HttpReadAsyncCallback) (actions : List Action) :
    Operations :=
  { s with
    reader := reader
    outstanding := s.outstanding ++ submitted actions
    log := s.log ++ actions }

/-- The first read, which `onAccepted` posts. -/
def accept (s : Operations) (submit : ExceptionPointer) : Operations :=
  { s with accepted := true }.took s.reader (if submit.isSome then [] else [.post .read])

/-- The kernel completes an operation. A read into `body` writes there. -/
def complete (s : Operations) (op : Op) (bytes : Bytes) : Operations :=
  { s with
    reader := match op with
      | .body _ => s.reader.receive bytes
      | .read | .write _ => s.reader
    outstanding := s.outstanding.erase op
    completed := s.completed ++ [op] }

/-- Nothing comes of an operation any more. -/
def lose (s : Operations) (op : Op) : Operations :=
  { s with outstanding := s.outstanding.erase op }

/-- `std::terminate`. -/
def terminate (s : Operations) : Operations := { s with terminated := true }

/-- The callback of an operation. -/
def callback (s : Operations) (env : Env) (op : Op) (ch : Choices) (status : AsyncTaskStatus)
    (sv : Bytes) : Operations :=
  let s := { s with completed := s.completed.erase op }
  if op.isWrite then
    match HttpWriteAsyncCallback.onStatusChanged status with
    | none => s.terminate
    | some _ => s
  else
    match Trace.onStatusChanged ⟨s.reader, []⟩ env ch status sv with
    | .error _ => s.terminate
    | .ok (_, t) => s.took t.reader t.log

/-- One step; nothing moves after `std::terminate`. -/
def step (env : Env) (s : Operations) (l : OpLabel) : Option Operations :=
  if s.terminated then none
  else
    match l with
    | .accept submit => if s.accepted then none else some (s.accept submit)
    | .complete op bytes => if op ∈ s.outstanding then some (s.complete op bytes) else none
    | .lose op => if op ∈ s.outstanding then some (s.lose op) else none
    | .callback op ch status sv =>
        if op ∈ s.completed then some (s.callback env op ch status sv) else none

end Operations

/-- A connection as a machine. -/
def operations (env : Env) : Machine Operations OpLabel where
  init := {}
  step := Operations.step env

namespace Operations

section

variable {env : Env} {s t : Operations} {op : Op}

/-- Nothing moves after `std::terminate`. -/
theorem running_of_step {l : OpLabel} (hstep : s.step env l = some t) : s.terminated = false := by
  rw [Operations.step.eq_def] at hstep
  split at hstep
  · cases hstep
  · exact Bool.eq_false_iff.mpr ‹_›

/-- The inversion of an accept: there was none before. -/
theorem accept_of_step {submit : ExceptionPointer}
    (hstep : s.step env (.accept submit) = some t) :
    s.accepted = false ∧ t = s.accept submit := by
  simp only [Operations.step, running_of_step hstep, Bool.false_eq_true, if_false] at hstep
  by_cases haccepted : s.accepted = true
  · rw [if_pos haccepted] at hstep
    cases hstep
  · rw [if_neg haccepted] at hstep
    exact ⟨Bool.eq_false_iff.mpr haccepted, (Option.some.inj hstep).symm⟩

/-- The inversion of a completion: the operation was outstanding. -/
theorem complete_of_step {bytes : Bytes} (hstep : s.step env (.complete op bytes) = some t) :
    op ∈ s.outstanding ∧ t = s.complete op bytes := by
  simp only [Operations.step, running_of_step hstep, Bool.false_eq_true, if_false] at hstep
  obtain ⟨hop, ht⟩ := Option.ite_none_right_eq_some.mp hstep
  exact ⟨hop, (Option.some.inj ht).symm⟩

/-- The inversion of a loss: the operation was outstanding. -/
theorem lose_of_step (hstep : s.step env (.lose op) = some t) :
    op ∈ s.outstanding ∧ t = s.lose op := by
  simp only [Operations.step, running_of_step hstep, Bool.false_eq_true, if_false] at hstep
  obtain ⟨hop, ht⟩ := Option.ite_none_right_eq_some.mp hstep
  exact ⟨hop, (Option.some.inj ht).symm⟩

/-- The inversion of a callback: the operation had completed. -/
theorem callback_of_step {ch : Choices} {status : AsyncTaskStatus} {sv : Bytes}
    (hstep : s.step env (.callback op ch status sv) = some t) :
    op ∈ s.completed ∧ t = s.callback env op ch status sv := by
  simp only [Operations.step, running_of_step hstep, Bool.false_eq_true, if_false] at hstep
  obtain ⟨hop, ht⟩ := Option.ite_none_right_eq_some.mp hstep
  exact ⟨hop, (Option.some.inj ht).symm⟩

end

end Operations

/-! ### The log of a connection -/

/-- What comes behind the reads in the log of a connection. -/
inductive Settled : List Action → Prop
  | nothing : Settled []
  | dispatched (d : Dispatch) : Settled [.dispatch d]
  | responded (d : Dispatch) (state : HttpURLHandlerState) :
      Settled [.dispatch d, .post (.write state)]

/-- **The log of a connection**: reads, then at most one dispatch, then at most one write. -/
def Shaped (log : List Action) : Prop :=
  ∃ reads rest, log = reads ++ rest ∧ (∀ a ∈ reads, a.isRead = true) ∧ Settled rest

/-- A log of reads only has this shape. -/
theorem shaped_of_reads {log : List Action} (h : ∀ a ∈ log, a.isRead = true) : Shaped log :=
  ⟨log, [], (List.append_nil log).symm, h, .nothing⟩

/-- Nothing comes behind the write of the response. -/
theorem Shaped.eq_nil_of_write {log before after : List Action} {state : HttpURLHandlerState}
    (h : Shaped log) (heq : log = before ++ .post (.write state) :: after) : after = [] := by
  obtain ⟨reads, rest, rfl, hreads, hrest⟩ := h
  induction reads generalizing before with
  | nil =>
      rw [List.nil_append] at heq
      cases hrest with
      | nothing => simp at heq
      | dispatched d =>
          cases before with
          | nil => simp at heq
          | cons a before => simp at heq
      | responded d state' =>
          cases before with
          | nil => simp at heq
          | cons a before =>
              cases before with
              | nil =>
                  obtain ⟨-, htail⟩ := List.cons.inj heq
                  exact (List.cons.inj htail).2.symm
              | cons b before => simp at heq
  | cons a reads ih =>
      cases before with
      | nil =>
          have hread := hreads a List.mem_cons_self
          obtain ⟨rfl, -⟩ := List.cons.inj heq
          cases hread
      | cons b before =>
          exact ih (List.cons.inj heq).2 fun a' ha' => hreads a' (List.mem_cons_of_mem a ha')

/-- The request is dispatched once at most. -/
theorem Shaped.countP_dispatch_le {log : List Action} (h : Shaped log) :
    log.countP Action.isDispatch ≤ 1 := by
  obtain ⟨reads, rest, rfl, hreads, hrest⟩ := h
  have hnone : reads.countP Action.isDispatch = 0 := by
    refine List.countP_eq_zero.mpr fun a ha hdispatch => ?_
    have hread := hreads a ha
    cases a with
    | dispatch d => cases hread
    | post op => cases hdispatch
  rw [List.countP_append, hnone, Nat.zero_add]
  cases hrest with
  | nothing => exact Nat.zero_le 1
  | dispatched d | responded d state => exact le_rfl

/-- What a call did goes behind reads. -/
theorem shaped_of_did {env : Env} {ch : Choices} {view : HttpRequestLineView} {result : Result}
    {log actions : List Action} (hlog : ∀ a ∈ log, a.isRead = true)
    (h : Did env ch view result actions) : Shaped (log ++ actions) := by
  cases h with
  | nothing hposted hdispatch => exact ⟨log, [], rfl, hlog, .nothing⟩
  | read hposted hdispatch | body n hposted hdispatch =>
      refine shaped_of_reads fun a ha => ?_
      rcases List.mem_append.mp ha with ha | ha
      · exact hlog a ha
      · obtain rfl := List.mem_singleton.mp ha
        rfl
  | dispatched d hposted hdispatch => exact ⟨log, _, rfl, hlog, .dispatched d⟩
  | responded d state hposted hdispatch hanswered =>
      exact ⟨log, _, rfl, hlog, .responded d state⟩

/-- **A call submits one operation at most**, and only reads when it submits a read. -/
theorem submitted_of_did {env : Env} {ch : Choices} {view : HttpRequestLineView}
    {result : Result} {actions : List Action} (h : Did env ch view result actions) :
    (submitted actions).length ≤ 1 ∧
      ∀ op ∈ submitted actions, op.isWrite = false → ∀ a ∈ actions, a.isRead = true := by
  cases h with
  | nothing hposted hdispatch => exact ⟨Nat.zero_le 1, fun op hop => absurd hop List.not_mem_nil⟩
  | read hposted hdispatch | body n hposted hdispatch =>
      refine ⟨le_rfl, fun _ _ _ a ha => ?_⟩
      obtain rfl := List.mem_singleton.mp ha
      rfl
  | dispatched d hposted hdispatch =>
      exact ⟨Nat.zero_le 1, fun op hop => absurd hop List.not_mem_nil⟩
  | responded d state hposted hdispatch hanswered =>
      refine ⟨le_rfl, fun op hop hread => ?_⟩
      obtain rfl := List.mem_singleton.mp hop
      cases hread

/-! ### The invariant -/

/-- **One thing at a time**: at most one operation is outstanding or waits for its callback,
and while it is a read nothing but reads was posted. -/
structure Sequential (s : Operations) : Prop where
  single : s.outstanding.length + s.completed.length ≤ 1
  fresh : s.accepted = false → s.outstanding = [] ∧ s.completed = [] ∧ s.log = []
  reading : ∀ op, op ∈ s.outstanding ∨ op ∈ s.completed → op.isWrite = false →
    ∀ a ∈ s.log, a.isRead = true
  shaped : Shaped s.log

section

variable {env : Env} {s t : Operations}

/-- The first read of a new connection is the only thing under way on it. -/
theorem Sequential.accept (h : Sequential s) (hfresh : s.accepted = false)
    (submit : ExceptionPointer) : Sequential (s.accept submit) := by
  obtain ⟨hout, hdone, hlog⟩ := h.fresh hfresh
  cases submit with
  | some e =>
      refine ⟨?_, fun ha => (by cases ha), fun op hop _ => ?_, ?_⟩
      · simp [Operations.accept, Operations.took, submitted, hout, hdone]
      · simp [Operations.accept, Operations.took, submitted, hout, hdone] at hop
      · refine shaped_of_reads fun a ha => ?_
        simp [Operations.accept, Operations.took, hlog] at ha
  | none =>
      have hreads : ∀ a ∈ (s.accept none).log, a.isRead = true := by
        intro a ha
        obtain rfl : a = .post .read := by
          simpa [Operations.accept, Operations.took, hlog] using ha
        rfl
      refine ⟨?_, fun ha => (by cases ha), fun op _ _ => hreads, shaped_of_reads hreads⟩
      simp [Operations.accept, Operations.took, submitted, Action.op?, hout, hdone]

/-- One thing stays under way when an operation completes. -/
theorem Sequential.complete (h : Sequential s) {op : Op} (hop : op ∈ s.outstanding)
    (bytes : Bytes) : Sequential (s.complete op bytes) := by
  have hpos : 0 < s.outstanding.length := List.length_pos_of_mem hop
  have hsingle := h.single
  refine ⟨?_, fun hfresh => ?_, fun op' hop' hread => ?_, h.shaped⟩
  · have herase := List.length_erase_of_mem hop
    simp only [Operations.complete, List.length_append, List.length_singleton, herase]
    omega
  · rw [(h.fresh hfresh).1] at hop
    cases hop
  · refine h.reading op' ?_ hread
    rcases hop' with hop' | hop'
    · exact .inl (List.mem_of_mem_erase hop')
    · rcases List.mem_append.mp hop' with hop' | hop'
      · exact .inr hop'
      · obtain rfl := List.mem_singleton.mp hop'
        exact .inl hop

/-- While an operation is outstanding it is the only one. -/
theorem Sequential.only (h : Sequential s) {op : Op} (hop : op ∈ s.outstanding) :
    s.outstanding = [op] ∧ s.completed = [] := by
  have hpos : 0 < s.outstanding.length := List.length_pos_of_mem hop
  have hsingle := h.single
  have hdone : s.completed = [] := List.length_eq_zero_iff.mp (by omega)
  obtain ⟨op', hop'⟩ := List.length_eq_one_iff.mp (show s.outstanding.length = 1 by omega)
  rw [hop', List.mem_singleton] at hop
  exact ⟨by rw [hop', hop], hdone⟩

/-- One thing at most is under way when an operation is lost. -/
theorem Sequential.lose (h : Sequential s) {op : Op} (hop : op ∈ s.outstanding) :
    Sequential (s.lose op) := by
  obtain ⟨hout, hdone⟩ := h.only hop
  have hnone : (s.lose op).outstanding = [] := by simp [Operations.lose, hout]
  refine ⟨?_, fun hfresh => ?_, fun op' hop' hread => ?_, h.shaped⟩
  · rw [hnone, List.length_nil, Nat.zero_add]
    exact (Nat.le_add_left _ _).trans h.single
  · obtain ⟨-, hdone, hlog⟩ := h.fresh hfresh
    exact ⟨hnone, hdone, hlog⟩
  · rcases hop' with hop' | hop'
    · rw [hnone] at hop'
      cases hop'
    · exact h.reading op' (.inr hop') hread

/-- While the callback of a completed operation is due, no other operation is outstanding. -/
theorem Sequential.alone (h : Sequential s) {op : Op} (hop : op ∈ s.completed) :
    s.outstanding = [] ∧ s.completed = [op] := by
  have hpos : 0 < s.completed.length := List.length_pos_of_mem hop
  have hsingle := h.single
  have hout : s.outstanding = [] := List.length_eq_zero_iff.mp (by omega)
  obtain ⟨op', hop'⟩ := List.length_eq_one_iff.mp (show s.completed.length = 1 by omega)
  rw [hop', List.mem_singleton] at hop
  exact ⟨hout, by rw [hop', hop]⟩

/-- **A callback does** one of these things, whatever it finds and whatever goes wrong. -/
theorem callback_cases (s : Operations) (env : Env) (op : Op) (ch : Choices)
    (status : AsyncTaskStatus) (sv : Bytes) :
    (∃ s', s' = { s with completed := s.completed.erase op } ∧
      (s.callback env op ch status sv = s' ∨ s.callback env op ch status sv = s'.terminate)) ∨
    op.isWrite = false ∧ ∃ reader actions view result,
      Did env ch view result actions ∧ s.callback env op ch status sv =
        { s with completed := s.completed.erase op }.took reader actions := by
  rw [Operations.callback]
  cases hwrite : op.isWrite with
  | true =>
      refine .inl ⟨_, rfl, ?_⟩
      rw [if_pos rfl]
      cases HttpWriteAsyncCallback.onStatusChanged status with
      | none => exact .inr rfl
      | some e => exact .inl rfl
  | false =>
      rw [if_neg Bool.false_ne_true]
      have hrefines := @HttpReadAsyncCallback.refines_onStatusChanged env ch [] s.reader status sv
      generalize s.reader.onStatusChanged env ch status sv = y at hrefines
      generalize Trace.onStatusChanged ⟨s.reader, []⟩ env ch status sv = x at hrefines
      cases hrefines with
      | terminated why => exact .inl ⟨_, rfl, .inr rfl⟩
      | @returned e t result actions he hreader hlog hdid =>
          refine .inr ⟨rfl, t.reader, actions, _, result, hdid, ?_⟩
          dsimp only
          rw [hlog, List.nil_append]

/-- One thing at most is under way when a worker runs a callback. -/
theorem Sequential.callback (h : Sequential s) {op : Op} (hop : op ∈ s.completed) (ch : Choices)
    (status : AsyncTaskStatus) (sv : Bytes) : Sequential (s.callback env op ch status sv) := by
  obtain ⟨hout, hdone⟩ := h.alone hop
  have hover : Sequential { s with completed := s.completed.erase op } := by
    refine ⟨?_, fun hfresh => ?_, fun op' hop' hread => ?_, h.shaped⟩
    · simp [hout, hdone]
    · rw [(h.fresh hfresh).2.1] at hop
      cases hop
    · simp [hout, hdone] at hop'
  rcases callback_cases s env op ch status sv with
    ⟨s', rfl, heq | heq⟩ | ⟨hread, reader, actions, view, result, hdid, heq⟩
  · rw [heq]
    exact hover
  · rw [heq]
    exact ⟨hover.single, hover.fresh, hover.reading, hover.shaped⟩
  · rw [heq]
    have hreads : ∀ a ∈ s.log, a.isRead = true := h.reading op (.inr hop) hread
    obtain ⟨hlength, hposted⟩ := submitted_of_did hdid
    refine ⟨?_, fun hfresh => ?_, fun op' hop' hread' a ha => ?_, shaped_of_did hreads hdid⟩
    · simpa [Operations.took, hout, hdone] using hlength
    · rw [(h.fresh hfresh).2.1] at hop
      cases hop
    · have hop'' : op' ∈ submitted actions := by
        simpa [Operations.took, hout, hdone] using hop'
      rcases List.mem_append.mp ha with ha | ha
      · exact hreads a ha
      · exact hposted op' hop'' hread' a ha

/-- Every step of a connection keeps one thing at a time. -/
theorem Sequential.step {l : OpLabel} (h : Sequential s) (hstep : s.step env l = some t) :
    Sequential t := by
  cases l with
  | accept submit =>
      obtain ⟨hfresh, rfl⟩ := Operations.accept_of_step hstep
      exact h.accept hfresh submit
  | complete op bytes =>
      obtain ⟨hop, rfl⟩ := Operations.complete_of_step hstep
      exact h.complete hop bytes
  | lose op =>
      obtain ⟨hop, rfl⟩ := Operations.lose_of_step hstep
      exact h.lose hop
  | callback op ch status sv =>
      obtain ⟨hop, rfl⟩ := Operations.callback_of_step hstep
      exact h.callback hop ch status sv

/-- In every run of a connection one thing happens at a time. -/
theorem sequential_of_run (h : (operations env).Reachable s) : Sequential s := by
  refine h.invariant ?_ fun s l t hs hstep => hs.step hstep
  exact ⟨Nat.zero_le 1, fun _ => ⟨rfl, rfl, rfl⟩, fun op hop => by simp [operations] at hop,
    shaped_of_reads fun a ha => by cases ha⟩

/-- A callback adds to the log, and submits one operation at most. -/
theorem submitted_of_callback {op : Op} {ch : Choices} {status : AsyncTaskStatus} {sv : Bytes}
    (hstep : s.step env (.callback op ch status sv) = some t) :
    ∃ actions, t.log = s.log ++ actions ∧ t.outstanding = s.outstanding ++ submitted actions ∧
      (submitted actions).length ≤ 1 := by
  obtain ⟨-, rfl⟩ := Operations.callback_of_step hstep
  rcases callback_cases s env op ch status sv with
    ⟨s', rfl, heq | heq⟩ | ⟨-, reader, actions, view, result, hdid, heq⟩
  · refine ⟨[], ?_, ?_, Nat.zero_le 1⟩ <;> rw [heq] <;> exact (List.append_nil _).symm
  · refine ⟨[], ?_, ?_, Nat.zero_le 1⟩ <;> rw [heq] <;> exact (List.append_nil _).symm
  · rw [heq]
    exact ⟨actions, rfl, rfl, (submitted_of_did hdid).1⟩

/-- **One outstanding operation, and one dispatch.** In every run of a connection, whatever
comes in, however it is cut and whatever goes wrong, at most one operation is outstanding; a
callback submits one operation at most; behind the write of the response the log ends; and the
request is dispatched once at most. -/
theorem one_outstanding (h : (operations env).Reachable s) :
    s.outstanding.length ≤ 1 ∧
      (∀ op ch status sv t, s.step env (.callback op ch status sv) = some t →
        ∃ actions, t.log = s.log ++ actions ∧
          t.outstanding = s.outstanding ++ submitted actions ∧
          (submitted actions).length ≤ 1) ∧
      (∀ before after state, s.log = before ++ .post (.write state) :: after → after = []) ∧
      s.log.countP Action.isDispatch ≤ 1 := by
  have hs := sequential_of_run h
  refine ⟨le_trans (Nat.le_add_right _ _) hs.single, fun op ch status sv t => ?_,
    fun before after state heq => hs.shaped.eq_nil_of_write heq, hs.shaped.countP_dispatch_le⟩
  exact submitted_of_callback

end

/-- One read is outstanding on a connection whose client closes it without having sent
anything. -/
theorem one_outstanding_closed :
    ∃ s : Operations, s.outstanding = [.read] ∧ s.log = [.post .read, .post .read] ∧
      s.log.countP Action.isDispatch ≤ 1 := by
  obtain ⟨s, hrun, hout, hlog⟩ := Machine.exists_runWhere (M := operations .bare)
    (G := fun _ _ => True) (s := (operations .bare).init)
    (P := fun s => s.outstanding = [.read] ∧ s.log = [.post .read, .post .read])
    [.accept none, .complete .read [], .callback .read .succeed .done []] (by decide)
  exact ⟨s, hout, hlog, (one_outstanding hrun).2.2.2⟩

end Netknot.Http
