import Netknot.Sockets
import Netknot.Win32.Delivery

/-!
# Errors and Null Pointers

The functions of the library return the null pointer for success. `NetworkError::alloc`
returns it too, when it gets no memory, and `wsaLastErrorToExcept` passes it on: the error of
the operating system is **lost**, and the caller reads success. `OutOfMemoryError::alloc` and
`BufferIsTooBigError::alloc` return static objects and cannot fail.

The synchronous calls make one call of the operating system each, translate the code when it
fails and set the out parameter when it does not. The asynchronous calls have other failing
exits too; only the one after the kernel call can lose its error.

## Main results

* `wsaLastErrorToExcept_eq_none_iff`: when the null pointer is the translation of a code.
* `Reports`, `reports_checked`: what a synchronous call returns.
* `returned_null_iff`: what an asynchronous call returns.
* `errors_reported_iff`: no failure is reported as success, unless the error is lost.
-/

namespace Netknot.Win32

/-- The codes `wsaLastErrorToExcept` lists. -/
def listed (errorCode : ℕ) : Bool :=
  errorCode = WSA_NOT_ENOUGH_MEMORY || (networkErrors.lookup errorCode).isSome

/-- **The error is lost**: the code belongs to a `NetworkError`, and there is no memory
for it. -/
def losesError (allocated : Bool) (errorCode : ℕ) : Bool :=
  (networkErrors.lookup errorCode).isSome && !allocated

/-- The code of exhausted memory belongs to no `NetworkError`. -/
theorem lookup_not_enough_memory : networkErrors.lookup WSA_NOT_ENOUGH_MEMORY = none := by decide

/-- **The null pointer is the translation of a code** if and only if the code is listed and there
is no memory for its `NetworkError`. -/
theorem wsaLastErrorToExcept_eq_none_iff {allocated : Bool} {errorCode : ℕ}
    {e : ExceptionPointer} (he : wsaLastErrorToExcept allocated errorCode = some e) :
    e = none ↔ losesError allocated errorCode = true := by
  rw [wsaLastErrorToExcept] at he
  by_cases hmemory : errorCode = WSA_NOT_ENOUGH_MEMORY
  · rw [if_pos hmemory] at he
    obtain rfl := Option.some.inj he
    refine iff_of_false (Option.some_ne_none _) ?_
    rw [losesError, hmemory, lookup_not_enough_memory]
    exact Bool.false_ne_true
  · rw [if_neg hmemory] at he
    obtain ⟨code, hlookup, rfl⟩ := Option.map_eq_some_iff.mp he
    rw [losesError, hlookup]
    cases allocated <;> simp

/-- A listed code has a translation. -/
theorem exists_wsaLastErrorToExcept {allocated : Bool} {errorCode : ℕ}
    (h : listed errorCode = true) : ∃ e, wsaLastErrorToExcept allocated errorCode = some e := by
  rw [wsaLastErrorToExcept]
  by_cases hmemory : errorCode = WSA_NOT_ENOUGH_MEMORY
  · rw [if_pos hmemory]
    exact ⟨_, rfl⟩
  · rw [if_neg hmemory]
    rw [listed, Bool.or_eq_true] at h
    obtain ⟨code, hlookup⟩ := Option.isSome_iff_exists.mp (h.resolve_left (by simpa using hmemory))
    rw [hlookup]
    exact ⟨_, rfl⟩

/-! ### The synchronous calls -/

/-- What a call returns, and its out parameter when it was set. -/
structure Returned (α : Type) where
  exception : ExceptionPointer
  out : Option α

/-- The shape of the synchronous calls: `answer` is what the operating system gives, a result
or the code of its error, and `allocated` the outcome of allocating the `NetworkError`. The
result `none` is `std::terminate`. -/
def checked {α : Type} (answer : Except ℕ α) (allocated : Bool) : Option (Returned α) :=
  match answer with
  | .error code => (wsaLastErrorToExcept allocated code).map fun e => ⟨e, none⟩
  | .ok a => some ⟨none, some a⟩

namespace SyncCall

/-- `Win32Socket::bind`; there is no out parameter. -/
def bind (answer : Except ℕ Unit) (allocated : Bool) : Option (Returned Unit) :=
  checked answer allocated

/-- `Win32Socket::listen`; there is no out parameter. -/
def listen (answer : Except ℕ Unit) (allocated : Bool) : Option (Returned Unit) :=
  checked answer allocated

/-- `Win32Socket::connect`; there is no out parameter. -/
def connect (answer : Except ℕ Unit) (allocated : Bool) : Option (Returned Unit) :=
  checked answer allocated

/-- `Win32Socket::read`, with the size `recv` gives. -/
def read (answer : Except ℕ ℕ) (allocated : Bool) : Option (Returned ℕ) :=
  checked answer allocated

/-- `Win32Socket::write`, with the size `send` gives. -/
def write (answer : Except ℕ ℕ) (allocated : Bool) : Option (Returned ℕ) :=
  checked answer allocated

/-- `Win32Socket::accept`, with the handle `::accept` gives; `created` is the outcome of
allocating the `Win32Socket`. -/
def accept (created : Bool) (answer : Except ℕ Handle) (allocated : Bool) :
    Option (Returned Handle) :=
  match answer with
  | .error code => checked (.error code) allocated
  | .ok h => if created then some ⟨none, some h⟩ else some ⟨some .outOfMemory, none⟩

end SyncCall

/-- **A null pointer means success**: the operating system succeeded, and the out parameter
holds its result. -/
def Returned.Faithful {α : Type} (r : Returned α) (answer : Except ℕ α) : Prop :=
  r.exception = none → ∃ a, answer = .ok a ∧ r.out = some a

/-- **A call reports failures** if and only if it does not lose the error. -/
def Reports {α : Type} (call : Except ℕ α → Bool → Option (Returned α)) : Prop :=
  ∀ answer allocated r, call answer allocated = some r →
    (r.Faithful answer ↔ ∀ code, answer = .error code → losesError allocated code = false)

/-- What a call returns for an error is faithful if and only if the error is not lost. -/
theorem faithful_error_iff {α : Type} {code : ℕ} {allocated : Bool} {r : Returned α}
    (h : checked (.error code : Except ℕ α) allocated = some r) :
    r.Faithful (.error code) ↔ losesError allocated code = false := by
  obtain ⟨e, he, rfl⟩ := Option.map_eq_some_iff.mp h
  rw [← Bool.not_eq_true, ← wsaLastErrorToExcept_eq_none_iff he]
  constructor
  · intro hfaithful hnull
    obtain ⟨a, ha, -⟩ := hfaithful hnull
    cases ha
  · intro hne hnull
    exact absurd hnull hne

/-- A call of the common shape reports the error of the kernel unless it is lost. -/
theorem reports_checked {α : Type} : Reports (checked : Except ℕ α → Bool → _) := by
  intro answer allocated r h
  cases answer with
  | error code =>
      rw [faithful_error_iff h]
      constructor
      · rintro hkept code' hcode'
        obtain rfl := Except.error.inj hcode'
        exact hkept
      · intro hkept
        exact hkept code rfl
  | ok a =>
      obtain rfl := Option.some.inj h
      exact iff_of_true (fun _ => ⟨a, rfl, rfl⟩) fun code hcode => by cases hcode

/-- `accept` reports the error of the kernel unless it is lost. -/
theorem reports_accept (created : Bool) : Reports (SyncCall.accept created) := by
  intro answer allocated r h
  cases answer with
  | error code => exact reports_checked (.error code) allocated r h
  | ok a =>
      refine iff_of_true (fun hnull => ?_) fun code hcode => by cases hcode
      cases created with
      | true =>
          obtain rfl := Option.some.inj h
          exact ⟨a, rfl, rfl⟩
      | false =>
          obtain rfl := Option.some.inj h
          cases hnull

/-- The socket object of `accept` is made exactly when its out parameter is set. -/
theorem accept_objects (s : Sockets) (j : SocketId) (answer : Except ℕ Handle)
    (allocated created : Bool) {r : Returned Handle}
    (hr : SyncCall.accept created answer allocated = some r) (hj : s.objects j = none) :
    (Win32Socket.accept s j answer created).objects j =
      r.out.map fun h => { socket := some h } := by
  cases answer with
  | error code =>
      obtain ⟨e, -, rfl⟩ := Option.map_eq_some_iff.mp hr
      rw [Win32Socket.accept]
      split <;> exact hj
  | ok h =>
      cases created with
      | true =>
          obtain rfl := Option.some.inj hr
          exact Function.update_self _ _ _
      | false =>
          obtain rfl := Option.some.inj hr
          exact hj

/-! ### The asynchronous calls -/

namespace Call

/-- **The kernel accepted the operation**, and the out parameter is set. -/
structure Submitted (c : Call) : Prop where
  issued : c.packet ≠ .notIssued
  out : c.asyncTaskOut = true

/-- The error of the kernel call is lost in this step: it does not count as accepted, and its
translation is the null pointer. -/
def losesError (c : Call) : Event → Bool
  | .submit (.alloc allocated) =>
      match c.pc with
      | .issued (.error code) =>
          !countsAsAccepted c.kind (.error code) && Win32.losesError allocated code
      | _ => false
  | _ => false

/-- What holds of a call before it returns: once the operation counts as accepted the kernel
has accepted it, and on the way out the out parameter is set. -/
structure Underway (c : Call) : Prop where
  answered : ∀ result, c.pc = .issued result → kernelAccepts result = true →
    c.packet ≠ .notIssued
  accepted : c.pc = .accepted ∨ c.pc = .posted ∨ c.pc = .shared ∨ c.pc = .leaving →
    c.packet ≠ .notIssued
  out : c.pc = .leaving → c.asyncTaskOut = true

/-- What counts as accepted, the kernel has accepted. -/
theorem kernelAccepts_of_countsAsAccepted {kind : AsyncTaskType} {result : KernelResult}
    (h : countsAsAccepted kind result = true) : kernelAccepts result = true := by
  cases result with
  | success => rfl
  | error code =>
      rw [countsAsAccepted, Bool.and_eq_true] at h
      exact h.2

/-- A call of which the kernel has answered nothing is under way. -/
theorem underway_of_early {c : Call} (h : c.pc.beforeIssue = true) : c.Underway where
  answered := fun result hpc => by rw [hpc] at h; cases h
  accepted := by rintro (hpc | hpc | hpc | hpc) <;> rw [hpc] at h <;> cases h
  out := fun hpc => by rw [hpc] at h; cases h

/-- A call that has returned an exception is under way. -/
theorem underway_of_returned {c : Call} {e : ExceptionPointer} (h : c.pc = .returned e) :
    c.Underway where
  answered := fun result hpc => by rw [h] at hpc; cases hpc
  accepted := by rintro (hpc | hpc | hpc | hpc) <;> rw [h] at hpc <;> cases hpc
  out := fun hpc => by rw [h] at hpc; cases hpc

/-- A call on the way out behind an insert that found no memory is under way. -/
theorem underway_of_failed {c : Call} (h : c.pc.failed = true) : c.Underway where
  answered := fun result hpc => by rw [hpc] at h; cases h
  accepted := by rintro (hpc | hpc | hpc | hpc) <;> rw [hpc] at h <;> cases h
  out := fun hpc => by rw [hpc] at h; cases h

/-- A failing exit leaves the call under way. -/
theorem underway_fail (c : Call) (e : ExceptionPointer) (p : FailPoint) :
    (c.fail e p).Underway :=
  underway_of_returned rfl

/-- A step of the kernel or of a worker keeps `Underway`. -/
theorem Underway.of_eq {c c' : Call} (h : c.Underway) (hpc : c'.pc = c.pc)
    (hout : c'.asyncTaskOut = c.asyncTaskOut) (hpacket : c'.packet ≠ .notIssued) :
    c'.Underway where
  answered := fun _ _ _ => hpacket
  accepted := fun _ => hpacket
  out := fun hl => hout.trans (h.out (hpc ▸ hl))

/-- A step of the submitting thread keeps `Underway`. -/
theorem Underway.submit {c c' : Call} {choice : SubmitChoice} (h : c.Underway)
    (hstep : Submits c choice (.next c')) : c'.Underway := by
  cases hstep with
  | call kind tooBig hpc =>
      rw [enter]
      split
      · exact underway_fail _ _ _
      · exact underway_of_early rfl
  | allocTask ok hpc =>
      rw [allocTask]
      split
      · exact underway_of_early rfl
      · exact underway_fail _ _ _
  | createSocket ok hpc hkind =>
      rw [createSocket]
      split
      · exact underway_of_early rfl
      · exact underway_fail _ _ _
  | allocOverlapped ok hpc hkind =>
      rw [allocOverlapped]
      split
      · exact underway_of_early rfl
      · exact underway_fail _ _ _
  | issue result hpc =>
      rw [issue]
      split
      · refine ⟨fun _ _ _ => PacketPhase.noConfusion, fun hpc => by simp at hpc, fun hpc => ?_⟩
        cases hpc
      · rename_i hrefused
        refine ⟨fun result' hpc' hacc => ?_, fun hpc => by simp at hpc, fun hpc => by cases hpc⟩
        obtain rfl := SubmitPc.issued.inj hpc'
        exact absurd hacc hrefused
  | accept ok result hpc hacc =>
      have hissued : c.packet ≠ .notIssued :=
        h.answered result hpc (kernelAccepts_of_countsAsAccepted hacc)
      exact ⟨fun _ _ _ => hissued, fun _ => hissued, fun hpc => by cases hpc⟩
  | refuse ok code e hpc hacc he => exact underway_fail _ _ _
  | insertFails hpc => exact underway_of_failed rfl
  | unwind hpc | giveUp hpc => exact underway_of_failed rfl
  | share hpc =>
      have hissued : c.packet ≠ .notIssued := h.accepted (.inr (.inl hpc))
      exact ⟨fun _ _ _ => hissued, fun _ => hissued, fun hpc => by cases hpc⟩
  | assignOut hpc =>
      have hissued : c.packet ≠ .notIssued := h.accepted (.inr (.inr (.inl hpc)))
      exact ⟨fun _ _ _ => hissued, fun _ => hissued, fun _ => rfl⟩
  | leave hpc => exact underway_of_returned (by rw [leave_eq])
  | release hpc href => exact underway_of_returned hpc

/-- **The step lemma of `Underway`**: every step keeps it. -/
theorem Underway.step {c c' : Call} {ev : Event} (h : c.Underway) (hstep : Steps c ev c') :
    c'.Underway := by
  cases hstep with
  | submit hsub => exact h.submit hsub
  | register hsub =>
      cases hsub with
      | insert hpc =>
          have hissued : c.packet ≠ .notIssued := h.accepted (.inl hpc)
          exact ⟨fun _ _ _ => hissued, fun _ => hissued, fun hpc => by cases hpc⟩
  | miss sz hp hreg | stays sz hp hin hin' => exact h.of_eq rfl rfl PacketPhase.noConfusion
  | dropRaw sz exits hit hp =>
      refine h.of_eq rfl rfl ?_
      cases hit <;> exact PacketPhase.noConfusion
  | _ => exact h.of_eq rfl rfl PacketPhase.noConfusion

/-- Only where the kernel has answered with an error can it be lost. -/
theorem losesError_eq_false {c : Call} (hpc : ∀ code, c.pc ≠ .issued (.error code)) (ev : Event) :
    c.losesError ev = false := by
  unfold losesError
  split
  · split
    · rename_i code hcode
      exact absurd hcode (hpc code)
    · rfl
  · rfl

/-- A step that neither returns the null pointer nor loses an error meets the condition, and
nothing has to be shown of it. -/
theorem submitted_iff_of {c c' : Call} {ev : Event} (hpc' : c'.pc ≠ .returned none)
    (hkept : c.losesError ev = false) :
    (c'.pc = .returned none → c'.Submitted) ↔ c.losesError ev = false :=
  iff_of_true (fun h => absurd h hpc') hkept

/-- A failing exit with an exception does not return the null pointer. -/
theorem fail_pc_ne {c : Call} {e : Exception} {p : FailPoint} :
    (c.fail (some e) p).pc ≠ .returned none :=
  fun h => by cases h

/-- **The exit after the kernel call**, which has refused the operation, returns the null pointer
exactly if the error is lost. -/
theorem refuse_submitted_iff {c : Call} {ok : Bool} {code : ℕ} {e : ExceptionPointer}
    (he : c.Exits) (hpc : c.pc = .issued (.error code))
    (hacc : countsAsAccepted c.kind (.error code) = false)
    (htranslated : wsaLastErrorToExcept ok code = some e) :
    ((c.fail e .kernelCall).pc = .returned none → (c.fail e .kernelCall).Submitted) ↔
      c.losesError (.submit (.alloc ok)) = false := by
  have hloses : c.losesError (.submit (.alloc ok)) = Win32.losesError ok code := by
    simp only [losesError, hpc, hacc, Bool.not_false, Bool.true_and]
  rw [hloses, ← Bool.not_eq_true, ← wsaLastErrorToExcept_eq_none_iff htranslated]
  constructor
  · rintro hsubmitted rfl
    have hissued := (hsubmitted rfl).issued
    rw [fail_eq] at hissued
    exact hissued (he.refused _ hpc (not_kernelAccepts htranslated))
  · intro hne hnull
    exact absurd (SubmitPc.returned.inj hnull) hne

/-- **The null pointer of an asynchronous call** means that the kernel has accepted the operation
and the out parameter is set, unless the error is lost. -/
theorem returned_null_iff {c c' : Call} {ev : Event} (he : c.Exits) (hu : c.Underway)
    (hstep : Steps c ev c') (hpc : ∀ e, c.pc ≠ .returned e) :
    (c'.pc = .returned none → c'.Submitted) ↔ c.losesError ev = false := by
  cases hstep with
  | submit hsub =>
      cases hsub with
      | call kind tooBig hpc =>
          refine submitted_iff_of ?_ rfl
          rw [enter]
          split
          · exact fail_pc_ne
          · exact SubmitPc.noConfusion
      | allocTask ok hpc =>
          refine submitted_iff_of ?_ (losesError_eq_false (by simp [hpc]) _)
          rw [allocTask]
          split
          · exact SubmitPc.noConfusion
          · exact fail_pc_ne
      | createSocket ok hpc hkind =>
          refine submitted_iff_of ?_ (losesError_eq_false (by simp [hpc]) _)
          rw [createSocket]
          split
          · exact SubmitPc.noConfusion
          · exact fail_pc_ne
      | allocOverlapped ok hpc hkind =>
          refine submitted_iff_of ?_ (losesError_eq_false ?_ _)
          · rw [allocOverlapped]
            split
            · exact SubmitPc.noConfusion
            · exact fail_pc_ne
          · rcases hpc with hpc | hpc <;> simp [hpc]
      | issue result hpc =>
          refine submitted_iff_of ?_ rfl
          rw [issue]
          split <;> exact SubmitPc.noConfusion
      | accept ok result hpc hacc =>
          refine submitted_iff_of SubmitPc.noConfusion ?_
          cases result with
          | success => exact losesError_eq_false (by simp [hpc]) _
          | error code => simp only [losesError, hpc, hacc, Bool.not_true, Bool.false_and]
      | refuse ok code e hpc hacc htranslated =>
          exact refuse_submitted_iff he hpc hacc htranslated
      | insertFails hpc =>
          exact submitted_iff_of SubmitPc.noConfusion (losesError_eq_false (by simp [hpc]) _)
      | unwind hpc => exact submitted_iff_of SubmitPc.noConfusion rfl
      | giveUp hpc => exact submitted_iff_of (fun h => by cases h) rfl
      | share hpc | assignOut hpc => exact submitted_iff_of SubmitPc.noConfusion rfl
      | leave hpc =>
          refine iff_of_true (fun _ => ⟨?_, ?_⟩) rfl
          · rw [leave_eq]
            exact hu.accepted (.inr (.inr (.inr hpc)))
          · rw [leave_eq]
            exact hu.out hpc
      | release hret href => exact absurd hret (hpc none)
  | register hsub =>
      cases hsub with
      | insert hpc =>
          exact submitted_iff_of SubmitPc.noConfusion (losesError_eq_false (by simp [hpc]) _)
  | _ => exact submitted_iff_of (hpc none) rfl

end Call

/-- Every call is under way in every run of an operation. -/
theorem lifecycle_underway {H : Call → Event → Prop} {c : Call}
    (h : lifecycle.RunWhere H lifecycle.init c) : c.Underway :=
  h.invariant (Call.underway_of_early rfl) fun _ _ _ hu _ hstep =>
    hu.step (Call.steps_of_after hstep)

/-! ### No failure is reported as success -/

/-- **A failed call is never reported as success**, unless the error is lost: its code belongs
to a `NetworkError` and there is no memory for it. This is so of the translation, of the
synchronous calls, and of the step in which an asynchronous call returns. -/
theorem errors_reported_iff {n : ℕ} {s : State n} (hs : (service n).Reachable s) :
    (∀ allocated code, listed code = true →
      ((∃ e, wsaLastErrorToExcept allocated code = some (some e)) ↔
        losesError allocated code = false)) ∧
    (Reports SyncCall.bind ∧ Reports SyncCall.listen ∧ Reports SyncCall.connect ∧
      Reports SyncCall.read ∧ Reports SyncCall.write ∧
      ∀ created, Reports (SyncCall.accept created)) ∧
    ∀ o, (∀ e, (s.calls o).pc ≠ .returned e) → ∀ ev c', (s.calls o).after ev = some c' →
      ((c'.pc = .returned none → c'.Submitted) ↔ (s.calls o).losesError ev = false) := by
  refine ⟨fun allocated code hlisted => ?_, ?_, fun o hpc ev c' hafter => ?_⟩
  · obtain ⟨e, he⟩ := @exists_wsaLastErrorToExcept allocated code hlisted
    rw [← Bool.not_eq_true, ← wsaLastErrorToExcept_eq_none_iff he, he]
    cases e <;> simp
  · exact ⟨reports_checked, reports_checked, reports_checked, reports_checked, reports_checked,
      reports_accept⟩
  · have hlife := reachable_life hs o
    exact Call.returned_null_iff (lifecycle_sound hlife).2 (lifecycle_underway hlife)
      (Call.steps_of_after hafter) hpc

/-- A read the kernel refuses: the connection was reset. -/
def refusedRead : List (Label 1) :=
  (submitUpToIssue .read).take 3 ++ [.submit 0 (.issue (.error WSAECONNRESET))]

/-- With memory for it, the error of a refused read is reported. -/
theorem errors_reported_refused :
    ∃ (s : State 1) (c' : Call), (s.calls 0).after (.submit (.alloc true)) = some c' ∧
      c'.failPoint = some .kernelCall ∧ c'.packet = .notIssued ∧ c'.pc ≠ .returned none := by
  obtain ⟨s, hrun, hpc, c', hafter, hfail, hpacket, hkept⟩ := Machine.exists_runWhere
    (M := service 1) (G := fun _ _ => True) (s := (service 1).init)
    (P := fun s => (s.calls 0).pc = .issued (.error WSAECONNRESET) ∧
      ∃ c' ∈ (s.calls 0).after (.submit (.alloc true)), c'.failPoint = some .kernelCall ∧
        c'.packet = .notIssued ∧ (s.calls 0).losesError (.submit (.alloc true)) = false)
    refusedRead (by decide)
  refine ⟨s, c', hafter, hfail, hpacket, fun hnull => ?_⟩
  have hsubmitted := ((errors_reported_iff hrun).2.2 0 (by simp [hpc]) _ c' hafter).mpr hkept hnull
  exact hsubmitted.issued hpacket

/-- **A lost error**: the peer has reset the connection, and there is no memory to say so.
`read` returns the null pointer and leaves its out parameter unset. -/
theorem error_lost :
    listed WSAECONNRESET = true ∧ wsaLastErrorToExcept false WSAECONNRESET = some none ∧
      (SyncCall.read (.error WSAECONNRESET) false).map (fun r => (r.exception, r.out)) =
        some (none, none) := by
  decide

end Netknot.Win32
