import Netknot.Win32.Submit

/-!
# Classifying the Answer of the Kernel

After the kernel call the three submit functions run the same steps: they test the answer,
post the task, count the caller's reference, assign `asyncTaskOut` and return. `settle` takes
these steps for one answer, with nothing in between.

The three agree on every answer but one. An operation that is pending is accepted by
`readAsync` and `acceptAsync`; `writeAsync` hands its code to `wsaLastErrorToExcept`, which
does not list it.

## Main results

* `settle_of_counts`, `settle_pending_write`: how a call ends.
* `classified_iff`: a call treats an answer as the kernel means it, unless it is a write that
  is pending.
* `accepts_agree_iff`: the three functions agree on every answer but the pending one.
-/

namespace Netknot.Win32

namespace Call

/-- A call takes its own steps, as long as it has one for the next choice. -/
def drive : List SubmitChoice → Call → Except Abort Call
  | [], c => .ok c
  | choice :: rest, c =>
      match c.submit choice with
      | none => .ok c
      | some (.next c') => drive rest c'
      | some (.registers c') => drive rest c'
      | some (.aborts reason) => .error reason

/-- The kernel answers, and the call tests the answer. -/
def test (c : Call) (result : KernelResult) (allocated : Bool) : Except Abort Call :=
  c.drive [.issue result, .alloc allocated]

/-- The kernel answers, and the call runs to its end. `allocated` is the outcome of allocating
a `NetworkError`, `posted` that of the insertion in `currentTasks`. -/
def settle (c : Call) (result : KernelResult) (allocated posted : Bool) : Except Abort Call :=
  c.drive [.issue result, .alloc allocated, .alloc posted, .go, .go, .go]

/-- The operation **counts as accepted**: the call goes on to `postAsyncTask`. -/
def Accepts (c : Call) (result : KernelResult) (allocated : Bool) : Prop :=
  ∃ c', c.test result allocated = .ok c' ∧ c'.pc = .accepted

/-- **The answer is treated as the kernel means it.** -/
structure Classified (c : Call) (result : KernelResult) : Prop where
  /-- The operation counts as accepted if and only if the kernel accepted it. -/
  accepts : ∀ allocated, c.Accepts result allocated ↔ kernelAccepts result = true
  /-- An accepted operation ends registered, with `asyncTaskOut` set. -/
  registered : kernelAccepts result = true → ∀ allocated, ∃ c',
    c.settle result allocated true = .ok c' ∧ c'.pc = .returned none ∧
      c'.registered = true ∧ c'.asyncTaskOut = true
  /-- Unless there is no memory to register it. -/
  outOfMemory : kernelAccepts result = true → ∀ allocated, ∃ c',
    c.settle result allocated false = .ok c' ∧ c'.pc = .returned (some .outOfMemory) ∧
      c'.failPoint = some .postAsyncTask
  /-- An operation that is pending neither ends the process nor makes the call fail, the
  insertion apart. -/
  pending : result = .error WSA_IO_PENDING → ∀ allocated posted, ∃ c' e,
    c.settle result allocated posted = .ok c' ∧ c'.pc = .returned e ∧
      (e ≠ none → c'.failPoint = some .postAsyncTask)

variable {c : Call} {result : KernelResult} {allocated : Bool}

/-- Behind the kernel call its answer is tested. -/
theorem submit_issue (allocated : Bool) :
    (c.issue result).submit (.alloc allocated) =
      some ((c.issue result).checkResult allocated result) := by
  have hpc : (c.issue result).pc = .issued result := by
    rw [issue]
    split
    · rfl
    · rfl
  rw [submit, hpc]

/-- The test of the answer is what `checkResult` makes of the call with that answer. -/
theorem test_eq (hpc : c.pc = .prepared) :
    c.test result allocated =
      match (c.issue result).checkResult allocated result with
      | .next c' => .ok c'
      | .registers c' => .ok c'
      | .aborts reason => .error reason := by
  rw [test, drive, submit, if_pos hpc]
  simp only [drive, submit_issue]
  cases (c.issue result).checkResult allocated result with
  | next c' => rfl
  | registers c' => rfl
  | aborts reason => rfl

/-- The kernel call does not change which function was called. -/
theorem kind_issue : (c.issue result).kind = c.kind := by
  rw [issue]
  split
  · rfl
  · rfl

/-- **The code counts an answer as accepted** in these cases. -/
theorem accepts_iff (hpc : c.pc = .prepared) :
    c.Accepts result allocated ↔ countsAsAccepted c.kind result = true := by
  rw [Accepts, test_eq hpc]
  simp only [checkResult, kind_issue]
  by_cases hcounts : countsAsAccepted c.kind result = true
  · rw [if_pos hcounts]
    exact iff_of_true ⟨_, rfl, rfl⟩ hcounts
  · rw [if_neg hcounts]
    refine iff_of_false ?_ hcounts
    rintro ⟨c', htest, haccepted⟩
    cases result with
    | success => exact hcounts rfl
    | error code =>
        dsimp only at htest
        cases htranslate : wsaLastErrorToExcept allocated code with
        | none =>
            rw [htranslate] at htest
            cases htest
        | some e =>
            rw [htranslate] at htest
            obtain rfl := Except.ok.inj htest
            cases haccepted

/-- The code and the kernel mean the same, unless the operation is a write that is pending. -/
theorem countsAsAccepted_eq_iff {kind : AsyncTaskType} :
    (countsAsAccepted kind result = true ↔ kernelAccepts result = true) ↔
      ¬ (kind = .write ∧ result = .error WSA_IO_PENDING) := by
  cases result with
  | success => simp [countsAsAccepted, kernelAccepts]
  | error code =>
      by_cases hpending : code = WSA_IO_PENDING
      · simp [countsAsAccepted, kernelAccepts, hpending]
      · simp [countsAsAccepted, kernelAccepts, hpending]

/-- The return changes neither whether the task is registered nor `asyncTaskOut`. -/
theorem leave_outcome (c : Call) :
    c.leave.registered = c.registered ∧ c.leave.asyncTaskOut = c.asyncTaskOut := by
  rw [leave]
  by_cases hkind : c.kind = .read
  · rw [if_pos hkind]
    exact ⟨rfl, rfl⟩
  · rw [if_neg hkind]
    exact ⟨rfl, rfl⟩

/-- **How an accepted call ends**: registered and shared, or out of memory. -/
theorem settle_of_counts (hpc : c.pc = .prepared)
    (hcounts : countsAsAccepted c.kind result = true) (posted : Bool) :
    ∃ c', c.settle result allocated posted = .ok c' ∧
      if posted then c'.pc = .returned none ∧ c'.registered = true ∧ c'.asyncTaskOut = true
      else c'.pc = .returned (some .outOfMemory) ∧ c'.failPoint = some .postAsyncTask := by
  have hcheck : (c.issue result).checkResult allocated result =
      .next { c.issue result with socketOwned := false, pc := .accepted } := by
    simp only [checkResult, kind_issue, hcounts, if_true]
  rw [settle, drive, submit, if_pos hpc]
  simp only [drive, submit_issue, hcheck]
  cases posted with
  | false => exact ⟨_, rfl, rfl, rfl⟩
  | true => exact ⟨_, rfl, rfl, (leave_outcome _).1, (leave_outcome _).2⟩

/-- **How a write that is pending ends**: the code is not listed, and the process ends. -/
theorem settle_pending_write (hpc : c.pc = .prepared) (hkind : c.kind = .write) (posted : Bool) :
    c.settle (.error WSA_IO_PENDING) allocated posted =
      .error (.unlistedError WSA_IO_PENDING) := by
  have hcheck : (c.issue (.error WSA_IO_PENDING)).checkResult allocated (.error WSA_IO_PENDING) =
      .aborts (.unlistedError WSA_IO_PENDING) := by
    simp [checkResult, kind_issue, hkind, countsAsAccepted, wsaLastErrorToExcept_io_pending]
  rw [settle, drive, submit, if_pos hpc]
  simp only [drive, submit_issue, hcheck]

/-- **A call treats an answer as the kernel means it**, unless it is a write that is pending. -/
theorem classified_iff (hpc : c.pc = .prepared) :
    c.Classified result ↔ ¬ (c.kind = .write ∧ result = .error WSA_IO_PENDING) := by
  constructor
  · intro h
    rw [← countsAsAccepted_eq_iff, ← @accepts_iff c result true hpc]
    exact h.accepts true
  · intro hne
    have hcounts := countsAsAccepted_eq_iff.mpr hne
    constructor
    · intro allocated
      rw [accepts_iff hpc, hcounts]
    · intro haccepts allocated
      obtain ⟨c', hsettle, hend⟩ := settle_of_counts hpc (hcounts.mpr haccepts) true
      exact ⟨c', hsettle, hend⟩
    · intro haccepts allocated
      obtain ⟨c', hsettle, hend⟩ := settle_of_counts hpc (hcounts.mpr haccepts) false
      exact ⟨c', hsettle, hend⟩
    · rintro rfl allocated posted
      obtain ⟨c', hsettle, hend⟩ := settle_of_counts hpc (hcounts.mpr rfl) posted
      cases posted with
      | false => exact ⟨c', _, hsettle, hend.1, fun _ => hend.2⟩
      | true => exact ⟨c', _, hsettle, hend.1, fun h => absurd rfl h⟩

/-- **The three functions agree** on every answer but the pending one. -/
theorem accepts_agree_iff :
    (∀ c c' : Call, c.pc = .prepared → c'.pc = .prepared → ∀ allocated,
      (c.Accepts result allocated ↔ c'.Accepts result allocated)) ↔
      result ≠ .error WSA_IO_PENDING := by
  constructor
  · rintro h rfl
    have hagree := h { kind := .read, pc := .prepared } { kind := .write, pc := .prepared } rfl rfl
      true
    rw [accepts_iff rfl, accepts_iff rfl] at hagree
    exact absurd (hagree.mp rfl) (by decide)
  · intro hne c c' hpc hpc' allocated
    rw [accepts_iff hpc, accepts_iff hpc', countsAsAccepted_eq_iff.mpr fun h => hne h.2,
      countsAsAccepted_eq_iff.mpr fun h => hne h.2]

end Call

/-- **The three submit functions classify the answers of the kernel alike**, and as the kernel
means them, unless a write is pending. -/
theorem submit_classifies_iff (result : KernelResult) :
    (∀ c : Call, c.pc = .prepared →
      (c.Classified result ↔ ¬ (c.kind = .write ∧ result = .error WSA_IO_PENDING))) ∧
    ((∀ c c' : Call, c.pc = .prepared → c'.pc = .prepared → ∀ allocated,
      (c.Accepts result allocated ↔ c'.Accepts result allocated)) ↔
        result ≠ .error WSA_IO_PENDING) :=
  ⟨fun _ hpc => Call.classified_iff hpc, Call.accepts_agree_iff⟩

/-- A read that is pending is classified as the kernel means it. -/
theorem classified_pending_read :
    Call.Classified { kind := .read, pc := .prepared } (.error WSA_IO_PENDING) :=
  ((submit_classifies_iff (.error WSA_IO_PENDING)).1 _ rfl).mpr fun h => by cases h.1

/-- A write that is pending is not: the process ends. -/
theorem not_classified_pending_write :
    ¬ Call.Classified { kind := .write, pc := .prepared } (.error WSA_IO_PENDING) := by
  intro h
  obtain ⟨c', e, hsettle, -⟩ := h.pending rfl true true
  rw [Call.settle_pending_write rfl rfl] at hsettle
  cases hsettle

end Netknot.Win32
