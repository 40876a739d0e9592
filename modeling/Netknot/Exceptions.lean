import Netknot.Lib.Machine
import Netknot.Lib.Ownership

/-!
# Exceptions and Their Owners

`ExceptionPointer`, which owns the exception it points to: all variables of this type of a
process, and the operations on them in any order. An exception object is known by its address;
`deallocs` counts the calls of its `dealloc()`. `taken` is history, and no step reads it.

The destructor and `reset()` call `dealloc()` on what the pointer holds. The move assignment
overwrites it.

## Main results

* `changes_of_step`: the inversion of a step.
* `exceptions_linear_iff`: every exception has exactly one owner or has been deallocated exactly
  once, as long as no pointer that holds it is assigned to, and no second pointer is constructed
  from it.
* `exec_returnIfExcept`: the macro `NETKNOT_RETURN_IF_EXCEPT` hands its exception on.
* `overwritten`: an exception that is assigned over, and one that is assigned to itself.
-/

namespace Netknot

/-- The address of an exception object. -/
abbrev ExceptionId := ℕ

/-- A variable of type `ExceptionPointer`. -/
abbrev VarId := ℕ

/-- The `ExceptionPointer`s of a process. -/
structure Exceptions where
  /-- The live variables, and the field `_ptr` of each; `none` in it is the null pointer. -/
  vars : VarId → Option (Option ExceptionId) := fun _ => none
  /-- How often `dealloc()` has been called on an exception. -/
  deallocs : ExceptionId → ℕ := fun _ => 0
  /-- An assertion failed. -/
  aborted : Bool := false
  /-- History: a pointer has been constructed from the exception. -/
  taken : ExceptionId → Bool := fun _ => false

namespace Exceptions

/-- `_ptr` of a variable; nothing when the variable is not live. -/
def ptr (s : Exceptions) (x : VarId) : Option ExceptionId := (s.vars x).join

/-- `_ptr` of a live variable becomes `p`. -/
def setPtr (s : Exceptions) (x : VarId) (p : Option ExceptionId) : Exceptions :=
  { s with vars := Function.update s.vars x (some p) }

/-- The variable is not live any more. -/
def leaveScope (s : Exceptions) (x : VarId) : Exceptions :=
  { s with vars := Function.update s.vars x none }

/-- `ExceptionPointer(Exception *exception)`, and the default constructor. -/
def construct (s : Exceptions) (x : VarId) (exception : Option ExceptionId) : Exceptions :=
  { s.setPtr x exception with
    taken := exception.elim s.taken fun e => Function.update s.taken e true }

/-- `ExceptionPointer(ExceptionPointer &&other)`. -/
def moveConstruct (s : Exceptions) (x other : VarId) : Exceptions :=
  (s.setPtr x (s.ptr other)).setPtr other none

/-- `operator=(ExceptionPointer &&other)`. The assignment of `nullptr` comes last, also when
`other` is the variable itself. -/
def moveAssign (s : Exceptions) (x other : VarId) : Exceptions :=
  (s.setPtr x (s.ptr other)).setPtr other none

/-- `reset()`. -/
def reset (s : Exceptions) (x : VarId) : Exceptions :=
  match s.ptr x with
  | none => s.setPtr x none
  | some e =>
      { s with deallocs := Function.update s.deallocs e (s.deallocs e + 1) }.setPtr x none

/-- `unwrap()`: `none` is the failure of its assertion. -/
def unwrap (assertions : Bool) (s : Exceptions) (x : VarId) : Option Exceptions :=
  if assertions && (s.ptr x).isSome then none else some s

/-- `~ExceptionPointer`. -/
def destroy (assertions : Bool) (s : Exceptions) (x : VarId) : Exceptions :=
  match s.unwrap assertions x with
  | none => { s with aborted := true }
  | some s => (s.reset x).leaveScope x

end Exceptions

/-- The operations on `ExceptionPointer`s. -/
inductive ExceptionLabel
  | construct (x : VarId) (exception : Option ExceptionId)
  | moveConstruct (x other : VarId)
  | moveAssign (x other : VarId)
  | reset (x : VarId)
  | destroy (x : VarId)
  deriving DecidableEq, Repr

namespace Exceptions

/-- The operation can be made: variables in use are live, and those that are constructed
are not. -/
def admits (s : Exceptions) : ExceptionLabel → Bool
  | .construct x _ => (s.vars x).isNone
  | .moveConstruct x other => (s.vars x).isNone && (s.vars other).isSome
  | .moveAssign x other => (s.vars x).isSome && (s.vars other).isSome
  | .reset x | .destroy x => (s.vars x).isSome

/-- What the labelled operation does to the exceptions. -/
def call (assertions : Bool) (s : Exceptions) : ExceptionLabel → Exceptions
  | .construct x exception => s.construct x exception
  | .moveConstruct x other => s.moveConstruct x other
  | .moveAssign x other => s.moveAssign x other
  | .reset x => s.reset x
  | .destroy x => s.destroy assertions x

/-- One step; nothing moves after an assertion has failed. -/
def step (assertions : Bool) (s : Exceptions) (l : ExceptionLabel) : Option Exceptions :=
  if !s.aborted && s.admits l then some (s.call assertions l) else none

end Exceptions

/-- The `ExceptionPointer`s of a process as a machine. -/
def exceptions (assertions : Bool) : Machine Exceptions ExceptionLabel where
  init := {}
  step := Exceptions.step assertions

namespace Exceptions

/-- **An exception is owned linearly** from when a pointer has been constructed from it: by
exactly one variable, or it has been deallocated exactly once. -/
def Linear (s : Exceptions) (e : ExceptionId) : Prop :=
  s.taken e = true → Ownership.Linear s.ptr s.deallocs e

/-- **The step condition** for an exception: a pointer is constructed from it for the first
time, and a variable that is assigned to does not hold it. -/
def keeps (e : ExceptionId) (s : Exceptions) : ExceptionLabel → Bool
  | .construct _ exception => !(exception = some e && s.taken e)
  | .moveAssign x _ => s.ptr x ≠ some e
  | .moveConstruct _ _ | .reset _ | .destroy _ => true

/-! ### What a step does to the owners -/

/-- A live variable holds what it is given. -/
@[simp] theorem ptr_setPtr (s : Exceptions) (x : VarId) (p : Option ExceptionId) :
    (s.setPtr x p).ptr = Function.update s.ptr x p := by
  funext y
  by_cases heq : y = x
  · subst heq
    simp [ptr, setPtr]
  · simp [ptr, setPtr, heq]

/-- A variable that is not live holds nothing. -/
@[simp] theorem ptr_leaveScope (s : Exceptions) (x : VarId) :
    (s.leaveScope x).ptr = Function.update s.ptr x none := by
  funext y
  by_cases heq : y = x
  · subst heq
    simp [ptr, leaveScope]
  · simp [ptr, leaveScope, heq]

@[simp] theorem deallocs_setPtr (s : Exceptions) (x : VarId) (p : Option ExceptionId) :
    (s.setPtr x p).deallocs = s.deallocs := rfl

@[simp] theorem taken_setPtr (s : Exceptions) (x : VarId) (p : Option ExceptionId) :
    (s.setPtr x p).taken = s.taken := rfl

/-- A variable that is not live owns nothing. -/
theorem ptr_eq_none {s : Exceptions} {x : VarId} (hx : s.vars x = none) : s.ptr x = none := by
  rw [ptr, hx]
  rfl

/-- Both moves pass on what `other` holds. -/
theorem ptr_moveAssign (s : Exceptions) (x other : VarId) :
    (s.moveAssign x other).ptr = Ownership.move s.ptr x other := by
  rw [moveAssign, ptr_setPtr, ptr_setPtr, Ownership.move]

/-- **What an operation can do** to the owners of exceptions. -/
inductive Changes (s : Exceptions) : ExceptionLabel → Exceptions → Prop
  /-- Nothing is held, or the process ends. -/
  | idle {l : ExceptionLabel} {t : Exceptions} (hl : ∀ e, s.keeps e l = true)
      (hptr : t.ptr = s.ptr) (hdeallocs : t.deallocs = s.deallocs) (htaken : t.taken = s.taken) :
      Changes s l t
  /-- A pointer is constructed from an exception. -/
  | takes {x : VarId} {e : ExceptionId} (hx : s.ptr x = none) :
      Changes s (.construct x (some e)) (s.construct x (some e))
  /-- A pointer is moved. -/
  | moves {l : ExceptionLabel} {t : Exceptions} (x other : VarId)
      (hl : ∀ e, s.keeps e l = true ↔ s.ptr x ≠ some e)
      (hptr : t.ptr = Ownership.move s.ptr x other) (hdeallocs : t.deallocs = s.deallocs)
      (htaken : t.taken = s.taken) : Changes s l t
  /-- `dealloc()` is called on what a variable holds. -/
  | frees {l : ExceptionLabel} {t : Exceptions} (x : VarId) (e : ExceptionId)
      (hl : ∀ e, s.keeps e l = true) (hx : s.ptr x = some e)
      (hptr : t.ptr = Function.update s.ptr x none)
      (hdeallocs : t.deallocs = Function.update s.deallocs e (s.deallocs e + 1))
      (htaken : t.taken = s.taken) : Changes s l t

/-- `reset()` does to each exception what `Changes` says. -/
theorem changes_reset {s t : Exceptions} {l : ExceptionLabel} {x : VarId}
    (hl : ∀ e, s.keeps e l = true) (hptr : t.ptr = (s.reset x).ptr)
    (hdeallocs : t.deallocs = (s.reset x).deallocs) (htaken : t.taken = (s.reset x).taken) :
    Changes s l t := by
  rw [reset] at hptr hdeallocs htaken
  cases hx : s.ptr x with
  | none =>
      rw [hx] at hptr hdeallocs htaken
      refine .idle hl ?_ hdeallocs htaken
      rw [hptr, ptr_setPtr, ← hx, Function.update_eq_self]
  | some e =>
      rw [hx] at hptr hdeallocs htaken
      exact .frees x e hl hx (hptr.trans (ptr_setPtr _ x none)) hdeallocs htaken

/-- **The inversion of a step**: it does to each exception what `Changes` says. -/
theorem changes_of_step {assertions : Bool} {s t : Exceptions} {l : ExceptionLabel}
    (hstep : s.step assertions l = some t) : Changes s l t := by
  rw [step] at hstep
  obtain ⟨hok, rfl⟩ := Option.ite_none_right_eq_some.mp hstep |>.imp_right Option.some.inj
  have hadmits : s.admits l = true := (Bool.and_eq_true_iff.mp hok).2
  cases l with
  | construct x exception =>
      have hx : s.ptr x = none := ptr_eq_none (Option.isNone_iff_eq_none.mp hadmits)
      cases exception with
      | some e => exact .takes hx
      | none =>
          refine .idle (fun e => rfl) ?_ rfl rfl
          rw [call, construct]
          exact (ptr_setPtr s x none).trans (by rw [← hx, Function.update_eq_self])
  | moveConstruct x other =>
      have hx : s.ptr x = none :=
        ptr_eq_none (Option.isNone_iff_eq_none.mp (Bool.and_eq_true_iff.mp hadmits).1)
      refine .moves x other (fun e => iff_of_true rfl ?_) (ptr_moveAssign s x other) rfl rfl
      rw [hx]
      exact (Option.some_ne_none e).symm
  | moveAssign x other =>
      exact .moves x other (fun e => decide_eq_true_iff) (ptr_moveAssign s x other) rfl rfl
  | reset x => exact changes_reset (fun e => rfl) rfl rfl rfl
  | destroy x =>
      rw [call, destroy, unwrap]
      split
      · exact .idle (fun e => rfl) rfl rfl rfl
      · rename_i s' hunwrap
        obtain ⟨-, rfl⟩ := Option.ite_none_left_eq_some.mp hunwrap |>.imp_right Option.some.inj
        refine changes_reset (x := x) (fun e => rfl) ?_ rfl rfl
        have hnone : (s.reset x).ptr x = none := by
          rw [reset]
          split <;> simp
        rw [ptr_leaveScope, ← hnone, Function.update_eq_self]

/-! ### The law of exceptions -/

/-- **An exception that no pointer has been constructed from** is held by none, and
not deallocated. -/
def Fresh (s : Exceptions) (e : ExceptionId) : Prop :=
  s.taken e = false → (∀ x, s.ptr x ≠ some e) ∧ s.deallocs e = 0

/-- A construction takes the exception that it is given, and no other. -/
theorem taken_construct (s : Exceptions) (x : VarId) (e e' : ExceptionId) :
    (s.construct x (some e')).taken e = if e = e' then true else s.taken e := by
  by_cases heq : e = e'
  · subst heq
    simp [construct]
  · simp [construct, heq]

/-- A new pointer holds what it is constructed from. -/
theorem ptr_construct (s : Exceptions) (x : VarId) (e : ExceptionId) :
    (s.construct x (some e)).ptr = Function.update s.ptr x (some e) := ptr_setPtr s x (some e)

/-- **A step touches no exception** that no pointer has been constructed from. -/
theorem Changes.fresh {s t : Exceptions} {l : ExceptionLabel} {e : ExceptionId}
    (h : Changes s l t) (hs : s.Fresh e) : t.Fresh e := by
  intro htaken
  cases h with
  | idle hl hptr hdeallocs htakent =>
      rw [htakent] at htaken
      rw [hptr, hdeallocs]
      exact hs htaken
  | @takes x e' hx =>
      rw [taken_construct] at htaken
      split at htaken
      · cases htaken
      · rename_i hne
        obtain ⟨hnone, hdeallocs⟩ := hs htaken
        rw [ptr_construct]
        exact ⟨Ownership.update_ne hnone fun heq => hne (Option.some.inj heq).symm, hdeallocs⟩
  | moves x other hl hptr hdeallocs htakent =>
      rw [htakent] at htaken
      obtain ⟨hnone, hzero⟩ := hs htaken
      rw [hptr, hdeallocs, Ownership.move]
      exact ⟨Ownership.update_ne (Ownership.update_ne hnone (hnone other))
        (Option.some_ne_none e).symm, hzero⟩
  | frees x e' hl hx hptr hdeallocs htakent =>
      rw [htakent] at htaken
      obtain ⟨hnone, hzero⟩ := hs htaken
      have hne : e ≠ e' := by
        rintro rfl
        exact hnone x hx
      rw [hptr, hdeallocs, Function.update_of_ne hne]
      exact ⟨Ownership.update_ne hnone (Option.some_ne_none e).symm, hzero⟩

/-- **One step keeps the ownership of an exception linear if and only if it meets the
condition.** -/
theorem Changes.linear_iff {s t : Exceptions} {l : ExceptionLabel} {e : ExceptionId}
    (h : Changes s l t) (hfresh : s.Fresh e) (hs : s.Linear e) :
    t.Linear e ↔ s.keeps e l = true := by
  cases h with
  | idle hl hptr hdeallocs htaken =>
      refine iff_of_true ?_ (hl e)
      rw [Linear, hptr, hdeallocs, htaken]
      exact hs
  | @takes x e' hx =>
      have hne : s.ptr x ≠ some e := by
        rw [hx]
        exact (Option.some_ne_none e).symm
      rw [Linear, taken_construct, ptr_construct]
      by_cases heq : e = e'
      · subst heq
        cases htaken : s.taken e with
        | true =>
            refine iff_of_false (fun ht => ?_) (by simp [keeps, htaken])
            exact (hs htaken).not_take hne (ht (if_pos rfl))
        | false =>
            obtain ⟨hnone, hzero⟩ := hfresh htaken
            exact iff_of_true (fun _ => Ownership.linear_take hnone hzero)
              (by simp [keeps, htaken])
      · rw [if_neg heq]
        have hother : some e' ≠ some e := fun h => heq (Option.some.inj h).symm
        exact iff_of_true (fun htaken => (hs htaken).update hne hother)
          (by simp [keeps, Ne.symm heq])
  | moves x other hl hptr hdeallocs htaken =>
      rw [hl e, Linear, hptr, hdeallocs, htaken]
      cases htaken : s.taken e with
      | true => exact (forall_prop_of_true rfl).trans ((hs htaken).move_iff x other)
      | false => exact iff_of_true (fun h => by cases h) ((hfresh htaken).1 x)
  | frees x e' hl hx hptr hdeallocs htakent =>
      refine iff_of_true (fun htaken => ?_) (hl e)
      rw [htakent] at htaken
      rw [hptr, hdeallocs]
      by_cases heq : e = e'
      · subst heq
        exact (hs htaken).free hx
      · have hne : s.ptr x ≠ some e := fun hx' => heq (Option.some.inj (hx'.symm.trans hx))
        have hlinear := (hs htaken).update (o := x) hne (Option.some_ne_none e).symm
        rw [Ownership.Linear, Function.update_of_ne heq]
        exact hlinear

/-- No exception has been taken at the start, where there is no pointer. -/
theorem fresh_init (assertions : Bool) (e : ExceptionId) : (exceptions assertions).init.Fresh e :=
  fun _ => ⟨fun _ h => (by cases h), rfl⟩

/-! ### The macros -/

/-- `NETKNOT_RETURN_IF_EXCEPT(expr)`: `tmp` is the variable `_`, constructed from `expr`, and
`result` what the function returns. -/
def returnIfExcept (s : Exceptions) (tmp result : VarId) : List ExceptionLabel :=
  if (s.ptr tmp).isSome then [.moveConstruct result tmp, .destroy tmp] else [.destroy tmp]

/-- `NETKNOT_RETURN_IF_EXCEPT_WITH_LVAR(name, expr)`: `tmp` is the value of `expr`. -/
def returnIfExceptWithLvar (s : Exceptions) (name tmp result : VarId) : List ExceptionLabel :=
  if (s.ptr tmp).isSome then [.moveAssign name tmp, .destroy tmp, .moveConstruct result name]
  else [.moveAssign name tmp, .destroy tmp]

section

variable {assertions : Bool} {s : Exceptions} {tmp name result : VarId} {p : Option ExceptionId}
  (e : ExceptionId)

/-- **The macro hands an exception on**: it meets the condition for every exception, nothing is
deallocated, and no assertion fails. -/
theorem exec_returnIfExcept (haborted : s.aborted = false) (htmp : s.vars tmp = some p)
    (hresult : s.vars result = none) :
    ∃ t ∈ (exceptions assertions).execWhere (fun s l => s.keeps e l = true) s
        (s.returnIfExcept tmp result),
      t.vars tmp = none ∧ t.ptr result = p ∧ t.deallocs = s.deallocs ∧ t.aborted = false := by
  have hne : tmp ≠ result := by
    rintro rfl
    rw [htmp] at hresult
    cases hresult
  cases p with
  | none =>
      simp [returnIfExcept, Machine.execWhere, exceptions, step, keeps, admits, call, destroy,
        unwrap, reset, ptr, htmp, haborted, setPtr, leaveScope, hne.symm, hresult]
  | some e' =>
      simp [returnIfExcept, Machine.execWhere, exceptions, step, keeps, admits, call, destroy,
        unwrap, reset, ptr, htmp, haborted, setPtr, leaveScope, hne.symm, hresult,
        moveConstruct]

/-- **The macro with a variable** loses what the variable holds, and nothing else. -/
theorem exec_returnIfExceptWithLvar_iff (haborted : s.aborted = false)
    (htmp : s.vars tmp = some p) (hname : (s.vars name).isSome = true)
    (hresult : s.vars result = none) (hdistinct : tmp ≠ name) :
    ((exceptions assertions).execWhere (fun s l => s.keeps e l = true) s
        (s.returnIfExceptWithLvar name tmp result)).isSome = true ↔ s.ptr name ≠ some e := by
  obtain ⟨q, hname⟩ := Option.isSome_iff_exists.mp hname
  have htmpResult : result ≠ tmp := by
    rintro rfl
    rw [htmp] at hresult
    cases hresult
  have hnameResult : result ≠ name := by
    rintro rfl
    rw [hname] at hresult
    cases hresult
  have hlive : ∀ x : Option ExceptionId, Function.update (Function.update s.vars name (some x)) tmp
      none result = none := fun x => by simp [htmpResult, hnameResult, hresult]
  cases p with
  | none =>
      simp [returnIfExceptWithLvar, Machine.execWhere, exceptions, step, keeps, admits, call,
        destroy, unwrap, reset, ptr, htmp, haborted, setPtr, leaveScope, hname, moveAssign]
  | some e' =>
      simp [returnIfExceptWithLvar, Machine.execWhere, exceptions, step, keeps, admits, call,
        destroy, unwrap, reset, ptr, htmp, haborted, setPtr, leaveScope, hname, moveAssign, hlive,
        hdistinct.symm, moveConstruct]

end

/-! ### Runs -/

/-- **The run lemma**: an exception is linear after every run whose steps all keep it. -/
theorem linear_of_run {assertions : Bool} {s : Exceptions} {e : ExceptionId}
    (hrun : (exceptions assertions).RunWhere (fun s l => s.keeps e l = true)
      (exceptions assertions).init s) : s.Fresh e ∧ s.Linear e := by
  refine hrun.invariant (I := fun s => s.Fresh e ∧ s.Linear e) ?_ ?_
  · exact ⟨fresh_init assertions e, fun htaken => by cases htaken⟩
  rintro s l t ⟨hfresh, hs⟩ hl hstep
  have hchanges := changes_of_step hstep
  exact ⟨hchanges.fresh hfresh, (hchanges.linear_iff hfresh hs).mpr hl⟩

/-- An exception is not linear any more after a step that does not meet the condition. -/
theorem not_linear_of_exec {assertions : Bool} {s t : Exceptions} {e : ExceptionId}
    {l : ExceptionLabel} (labels : List ExceptionLabel)
    (hexec : (exceptions assertions).execWhere (fun s l => s.keeps e l = true) {} labels = some s)
    (hstep : s.step assertions l = some t) (hl : s.keeps e l = false) : ¬t.Linear e := by
  obtain ⟨hfresh, hs⟩ := linear_of_run (Machine.runWhere_of_execWhere hexec)
  rw [(changes_of_step hstep).linear_iff hfresh hs, hl]
  exact Bool.false_ne_true

end Exceptions

/-- **Every exception has exactly one owner or has been deallocated exactly once**, with
assertions and without, along every run in which no variable that holds it is assigned to and
no second pointer is constructed from it. A step that does otherwise ends that: the exception is
lost, or has two owners, or is owned after its end. -/
theorem exceptions_linear_iff (assertions : Bool) (e : ExceptionId) (s : Exceptions)
    (hrun : (exceptions assertions).RunWhere (fun s l => s.keeps e l = true)
      (exceptions assertions).init s) :
    s.Linear e ∧ ∀ l t, (exceptions assertions).step s l = some t →
      (t.Linear e ↔ s.keeps e l = true) := by
  obtain ⟨hfresh, hs⟩ := Exceptions.linear_of_run hrun
  exact ⟨hs, fun l t hstep => (Exceptions.changes_of_step hstep).linear_iff hfresh hs⟩

/-- An exception is thrown, moved to its receiver and reset there. -/
def throwsOnce : List ExceptionLabel :=
  [.construct 0 (some 7), .moveConstruct 1 0, .destroy 0, .reset 1, .destroy 1]

/-- An exception that was thrown and reset has been deallocated once. -/
theorem exceptions_linear_thrown :
    ∃ s : Exceptions, s.taken 7 = true ∧ s.deallocs 7 = 1 ∧ s.Linear 7 := by
  obtain ⟨s, hrun, htaken, hdeallocs⟩ := Machine.exists_runWhere (M := exceptions true)
    (G := fun s l => s.keeps 7 l = true) (s := (exceptions true).init)
    (P := fun s => s.taken 7 = true ∧ s.deallocs 7 = 1) throwsOnce (by decide)
  exact ⟨s, htaken, hdeallocs, (exceptions_linear_iff true 7 s hrun).1⟩

/-- **An exception that is assigned over**, and one that is assigned to itself, is not linear any
more: nobody holds it, and it was not deallocated. -/
theorem overwritten :
    (∃ s ∈ (exceptions true).execWhere (fun s l => s.keeps 7 l = true) {}
        [.construct 0 (some 7), .construct 1 (some 8)],
      ∃ t ∈ (exceptions true).step s (.moveAssign 0 1), ¬t.Linear 7) ∧
    ∃ s ∈ (exceptions true).execWhere (fun s l => s.keeps 7 l = true) {}
        [.construct 0 (some 7)],
      ∃ t ∈ (exceptions true).step s (.moveAssign 0 0), ¬t.Linear 7 := by
  have hover := @Exceptions.not_linear_of_exec true _ _ 7 (.moveAssign 0 1)
    [.construct 0 (some 7), .construct 1 (some 8)] rfl rfl rfl
  have hself := @Exceptions.not_linear_of_exec true _ _ 7 (.moveAssign 0 0)
    [.construct 0 (some 7)] rfl rfl rfl
  exact ⟨⟨_, rfl, _, rfl, hover⟩, _, rfl, _, rfl, hself⟩

end Netknot
