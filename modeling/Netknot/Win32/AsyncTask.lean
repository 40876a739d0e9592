import Mathlib.Algebra.Group.Nat.Defs
import Netknot.Except

/-!
# The Reference-Counted Task and its Overlapped Block

The heap object behind one asynchronous operation of the Win32 backend: a
`Win32ReadAsyncTask`, `Win32WriteAsyncTask` or `Win32AcceptAsyncTask` together with the
`Win32IOCPOverlapped` block it owns. The two hold each other: the task's destructor
releases the block, and releasing the block drops a reference on the task.

Beside the members the code reads, `AsyncTask` keeps a **ledger** no function of the code
reads: how many references were taken and dropped, how often a reference was dropped from
a count of zero, how often the destructor ran, how often the block went back to the
allocator, and by how much the counts of the caller's buffer and callback differ from
before the call. The results about ownership are read off the ledger.

## Main results

* `AsyncTask.decRef_of_two_le`: dropping a reference that is not the last only lowers the
  count.
* `AsyncTask.decRef_last`: dropping the last one runs the destructor once, and the
  destructor drops one reference more, from a count of zero.
* `AsyncTask.onRefZero_one`: running the destructor directly, past the count, while the
  block holds the only reference, runs it twice.
-/

namespace Netknot.Win32

/-- The largest `size_t`: what the unsigned counter holds after a decrement from zero. -/
def SIZE_MAX : ℕ := 2 ^ 64 - 1

/-- `--_refCount`: the counter is a `size_t`, so it wraps below zero. -/
def decSize (n : ℕ) : ℕ := if n = 0 then SIZE_MAX else n - 1

/-- `++_refCount`. -/
def incSize (n : ℕ) : ℕ := if n = SIZE_MAX then 0 else n + 1

/-- A decrement of a positive count does not wrap. -/
theorem decSize_of_pos {n : ℕ} (h : 0 < n) : decSize n = n - 1 := by
  rw [decSize, if_neg (by omega)]

/-- An increment below the top of the counter does not wrap. -/
theorem incSize_of_lt {n : ℕ} (h : n < SIZE_MAX) : incSize n = n + 1 := by
  rw [incSize, if_neg (by omega)]

/-- One asynchronous task and its overlapped block, with the ledger of what was done to them. -/
structure AsyncTask where
  /-- The object has been allocated and constructed. -/
  allocated : Bool := false
  /-- `_refCount`. -/
  refCount : ℕ := 0
  /-- `bufferRef` (and, once there is a block, `overlapped->rcBuffer`) holds the caller's
  buffer: true of reads and writes, false of accepts. -/
  buffered : Bool := false
  /-- `overlapped` is not null. -/
  hasOverlapped : Bool := false
  /-- `callback` is not null. -/
  hasCallback : Bool := false
  /-- `status`. -/
  status : AsyncTaskStatus := .ready
  /-- `szRead` or `szWritten`. -/
  szOperated : ℕ := 0
  /-- Ledger: references taken with `incRef`. -/
  taken : ℕ := 0
  /-- Ledger: references dropped with `decRef`. -/
  dropped : ℕ := 0
  /-- Ledger: of these, how many were dropped from a count of zero. -/
  decRefAtZero : ℕ := 0
  /-- Ledger: how often the destructor ran and the object was released. -/
  destroyed : ℕ := 0
  /-- Ledger: how often the overlapped block was released. -/
  overlappedReleased : ℕ := 0
  /-- Ledger: the count of the caller's buffer, relative to before the call. -/
  bufferRefs : ℤ := 0
  /-- Ledger: the count of the caller's callback, relative to before the call. -/
  callbackRefs : ℤ := 0
  deriving DecidableEq, Repr

namespace AsyncTask

/-- `AsyncTask::incRef`. -/
def incRef (t : AsyncTask) : AsyncTask :=
  { t with refCount := incSize t.refCount, taken := t.taken + 1 }

/-- The decrement of `AsyncTask::decRef`, before it looks at the result. -/
def dropCount (t : AsyncTask) : AsyncTask :=
  { t with
    refCount := decSize t.refCount
    dropped := t.dropped + 1
    decRefAtZero := t.decRefAtZero + if t.refCount = 0 then 1 else 0 }

/-- The end of a destructor: the members `callback` and `bufferRef` drop what they hold
and the object is released. -/
def releaseMembers (t : AsyncTask) : AsyncTask :=
  { t with
    callbackRefs := t.callbackRefs - if t.hasCallback then 1 else 0
    bufferRefs := t.bufferRefs - if t.buffered then 1 else 0
    destroyed := t.destroyed + 1 }

/-- `releaseOverlapped` up to the decrement it makes on the task: the block's reference on
the buffer goes first. -/
def releaseOverlappedRefs (t : AsyncTask) : AsyncTask :=
  { t with bufferRefs := t.bufferRefs - if t.buffered then 1 else 0 }.dropCount

/-- `releaseOverlapped` after that decrement: the block goes back to the allocator. -/
def releaseOverlappedBlock (t : AsyncTask) : AsyncTask :=
  { t with overlappedReleased := t.overlappedReleased + 1 }

/-- `destroyAndRelease` of a task: the destructor calls `releaseOverlapped`, whose
`asyncTask->decRef(0)` runs `onRefZero` again when it brings the count to zero. The
argument bounds that recursion. -/
def destroyAndRelease : ℕ → AsyncTask → AsyncTask
  | 0, t => t
  | n + 1, t =>
      if t.hasOverlapped then
        if t.releaseOverlappedRefs.refCount = 0 then
          (destroyAndRelease n t.releaseOverlappedRefs).releaseOverlappedBlock.releaseMembers
        else t.releaseOverlappedRefs.releaseOverlappedBlock.releaseMembers
      else t.releaseMembers

/-- `onRefZero`. Two levels suffice: only a count of one is brought to zero, and from
zero the counter wraps (`destroyAndRelease_eq`). -/
def onRefZero (t : AsyncTask) : AsyncTask := destroyAndRelease 2 t

/-- `AsyncTask::decRef`. -/
def decRef (t : AsyncTask) : AsyncTask :=
  if t.dropCount.refCount = 0 then t.dropCount.onRefZero else t.dropCount

/-- The count a block's reference leaves behind is zero only from one. -/
theorem releaseOverlappedRefs_refCount_eq_zero_iff (t : AsyncTask) :
    t.releaseOverlappedRefs.refCount = 0 ↔ t.refCount = 1 := by
  simp only [releaseOverlappedRefs, dropCount, decSize, SIZE_MAX]
  split <;> omega

/-- The destructor of a task whose block drops its reference from a count other than one does
not recur. -/
theorem destroyAndRelease_succ_of_ne_one {t : AsyncTask} (n : ℕ) (h : t.refCount ≠ 1) :
    destroyAndRelease (n + 1) t = destroyAndRelease 1 t := by
  have hne : ¬ t.releaseOverlappedRefs.refCount = 0 :=
    fun h0 => h ((releaseOverlappedRefs_refCount_eq_zero_iff t).mp h0)
  simp only [destroyAndRelease, if_neg hne]

/-- **Two levels suffice**: any deeper bound gives what `onRefZero` gives. -/
theorem destroyAndRelease_eq (t : AsyncTask) (n : ℕ) :
    destroyAndRelease (n + 2) t = t.onRefZero := by
  by_cases h : t.refCount = 1
  · have h0 : t.releaseOverlappedRefs.refCount ≠ 1 := by
      simp [releaseOverlappedRefs, dropCount, decSize, h]
    have hrec : destroyAndRelease (n + 1) t.releaseOverlappedRefs =
        destroyAndRelease 1 t.releaseOverlappedRefs :=
      destroyAndRelease_succ_of_ne_one n h0
    rw [onRefZero, destroyAndRelease, hrec, ← destroyAndRelease]
  · rw [onRefZero, destroyAndRelease_succ_of_ne_one (n + 1) h,
      destroyAndRelease_succ_of_ne_one 1 h]

/-- **The recursion of the source**, without a bound: the destructor releases the block, whose
drop runs `onRefZero` again when it brings the count to zero. -/
theorem onRefZero_eq (t : AsyncTask) :
    t.onRefZero =
      if t.hasOverlapped then
        if t.releaseOverlappedRefs.refCount = 0 then
          t.releaseOverlappedRefs.onRefZero.releaseOverlappedBlock.releaseMembers
        else t.releaseOverlappedRefs.releaseOverlappedBlock.releaseMembers
      else t.releaseMembers := by
  rw [← destroyAndRelease_eq t 1]
  rfl

/-! ### What dropping a reference does -/

/-- Dropping a reference that is not the last only lowers the count. -/
theorem decRef_of_two_le {t : AsyncTask} (h : 2 ≤ t.refCount) :
    t.decRef = { t with refCount := t.refCount - 1, dropped := t.dropped + 1 } := by
  have hdrop : t.dropCount =
      { t with refCount := t.refCount - 1, dropped := t.dropped + 1 } := by
    simp only [dropCount, decSize_of_pos (by omega : 0 < t.refCount),
      if_neg (by omega : ¬ t.refCount = 0), Nat.add_zero]
  rw [decRef, hdrop, if_neg (by simp only; omega)]

/-- Dropping the last reference of a task without a block runs the destructor once. -/
theorem decRef_last_without_overlapped {t : AsyncTask} (h : t.refCount = 1)
    (ho : t.hasOverlapped = false) :
    t.decRef =
      { t with refCount := 0, dropped := t.dropped + 1 }.releaseMembers := by
  simp [decRef, dropCount, decSize, h, onRefZero, destroyAndRelease, ho, releaseMembers]

/-- **Dropping the last reference** of a task with a block runs the destructor once; the
block it releases drops one reference more, from a count of zero, and the counter is left
at `SIZE_MAX`. -/
theorem decRef_last {t : AsyncTask} (h : t.refCount = 1) (ho : t.hasOverlapped = true) :
    t.decRef =
      { t with
        refCount := SIZE_MAX
        dropped := t.dropped + 2
        decRefAtZero := t.decRefAtZero + 1
        bufferRefs := t.bufferRefs - if t.buffered then 1 else 0
        overlappedReleased := t.overlappedReleased + 1 }.releaseMembers := by
  simp [decRef, dropCount, decSize, h, onRefZero, destroyAndRelease, ho, releaseMembers,
    releaseOverlappedRefs, releaseOverlappedBlock, SIZE_MAX]

/-- The destructor of a task without a block runs once, and drops nothing. -/
theorem onRefZero_without_overlapped {t : AsyncTask} (ho : t.hasOverlapped = false) :
    t.onRefZero = t.releaseMembers := by
  rw [onRefZero_eq, ho]
  rfl

/-- **Running the destructor past the count** while the block holds the only reference: the
block's decrement reaches zero and runs the destructor a second time, inside the first. -/
theorem onRefZero_one {t : AsyncTask} (h : t.refCount = 1) (ho : t.hasOverlapped = true) :
    t.onRefZero.destroyed = t.destroyed + 2 ∧
      t.onRefZero.overlappedReleased = t.overlappedReleased + 2 ∧
      t.onRefZero.decRefAtZero = t.decRefAtZero + 1 := by
  simp [onRefZero, destroyAndRelease, ho, h, releaseMembers, releaseOverlappedRefs,
    releaseOverlappedBlock, dropCount, decSize, SIZE_MAX]

/-- The destructor that runs past the count while others hold references too runs once, and drops
the reference of the block. -/
theorem onRefZero_of_two_le {t : AsyncTask} (h : 2 ≤ t.refCount)
    (ho : t.hasOverlapped = true) :
    t.onRefZero =
      { t with
        refCount := t.refCount - 1
        dropped := t.dropped + 1
        bufferRefs := t.bufferRefs - if t.buffered then 1 else 0
        overlappedReleased := t.overlappedReleased + 1 }.releaseMembers := by
  have h0 : t.refCount ≠ 0 := by omega
  have h1 : t.refCount - 1 ≠ 0 := by omega
  rw [onRefZero_eq]
  simp [ho, releaseMembers, releaseOverlappedRefs, releaseOverlappedBlock, dropCount, decSize, h0,
    h1]

/-! ### What no drop undoes -/

/-- The destructor count never goes down. -/
theorem le_destroyed_destroyAndRelease (n : ℕ) (t : AsyncTask) :
    t.destroyed ≤ (destroyAndRelease n t).destroyed := by
  induction n generalizing t with
  | zero => exact le_rfl
  | succ n ih =>
      have hrec : t.destroyed ≤ (destroyAndRelease n t.releaseOverlappedRefs).destroyed :=
        ih t.releaseOverlappedRefs
      rw [destroyAndRelease]
      split
      · split
        · exact Nat.le_succ_of_le hrec
        · exact Nat.le_succ t.destroyed
      · exact Nat.le_succ t.destroyed

/-- Running the destructor leaves a mark. -/
theorem destroyed_lt_onRefZero (t : AsyncTask) : t.destroyed < t.onRefZero.destroyed := by
  have hrec : t.destroyed ≤ t.releaseOverlappedRefs.onRefZero.destroyed :=
    le_destroyed_destroyAndRelease 2 t.releaseOverlappedRefs
  rw [onRefZero_eq]
  split
  · split
    · exact Nat.lt_succ_of_le hrec
    · exact Nat.lt_succ_self t.destroyed
  · exact Nat.lt_succ_self t.destroyed

/-- Dropping a reference never undoes a destruction. -/
theorem le_destroyed_decRef (t : AsyncTask) : t.destroyed ≤ t.decRef.destroyed := by
  rw [decRef]
  split
  · exact Nat.le_of_lt (destroyed_lt_onRefZero t.dropCount)
  · exact le_rfl

end AsyncTask

end Netknot.Win32
