import Netknot.Lib.RefCount
import Netknot.Win32.AsyncTask

/-!
# The Counts of Tasks and Callbacks

`AsyncTask`, `ReadAsyncCallback`, `WriteAsyncCallback` and `AcceptAsyncCallback` count the
references to them in the same way. `incRef` is one operation on `_refCount`, an atomic
`size_t`; `decRef` is an operation and what comes of it:

* `--_refCount` brought the count to zero: `onRefZero()` destroys the object, and `decRef`
  returns zero;
* it did not: `decRef` returns `_refCount`, which it reads from the object once more, and which
  the thread has no reference on any more.

The object is one whose destructor does not drop a reference on it: a callback, or a task of
the Unix backend. A task of the Win32 backend has its overlapped block to release
(`Netknot.Win32.AsyncTask`).

## Main results

* `decRef_uninterrupted`: `Win32.AsyncTask.decRef` is `decRef` with nothing in between.
* `references_exact`: the count is right, and the object is destroyed once, in every run.
* `returns_live_iff`: how long `decRef` reads the count of an object that is there.
-/

namespace Netknot

open RefCount

/-- An object with `n` places for a reference to it, each in a thread of its own: `take` is
`incRef`; `lower` is `--_refCount` in `decRef`, `destroy` its `onRefZero()` and `look` its
`return _refCount`. -/
def refCounted (n : ℕ) : Machine (Counter (Fin n)) (Label (Fin n)) :=
  counter Win32.incSize Win32.decSize (Fin n)

/-- **`decRef` in one go** does what the model of a task makes of it. -/
theorem decRef_uninterrupted {n : ℕ} {s : Counter (Fin n)} {i : Fin n} {task : Win32.AsyncTask}
    (hi : s.phase i = .holding) (hcount : s.count = task.refCount)
    (hblock : task.hasOverlapped = false) :
    ∃ t, (refCounted n).RunWhere (fun _ _ => True) s t ∧ t.phase i = .out ∧
      t.count = task.decRef.refCount ∧
      t.destroyed + task.destroyed = s.destroyed + task.decRef.destroyed := by
  obtain ⟨t, hrun, hcount', hphase, hdestroyed⟩ :=
    @runWhere_release (Fin n) _ Win32.incSize Win32.decSize s i hi
  refine ⟨t, hrun, by rw [hphase, Function.update_self], ?_, ?_⟩
  · rw [hcount', hcount, Win32.AsyncTask.decRef]
    split
    · rw [Win32.AsyncTask.onRefZero_without_overlapped (t := task.dropCount) hblock]
      rfl
    · rfl
  · rw [hdestroyed, hcount, Win32.AsyncTask.decRef]
    by_cases hzero : Win32.decSize task.refCount = 0
    · rw [if_pos hzero, if_pos (show task.dropCount.refCount = 0 from hzero),
        Win32.AsyncTask.onRefZero_without_overlapped (t := task.dropCount) hblock]
      simp only [Win32.AsyncTask.releaseMembers, Win32.AsyncTask.dropCount]
      omega
    · rw [if_neg hzero, if_neg (show ¬task.dropCount.refCount = 0 from hzero)]
      rfl

/-- The counts of an object that is not referred to more often than a `size_t` can count
are exact. -/
theorem exact_of_refCounted {n : ℕ} (hn : n ≤ Win32.SIZE_MAX)
    {G : Counter (Fin n) → Label (Fin n) → Prop} {s : Counter (Fin n)}
    (h : (refCounted n).RunWhere G (refCounted n).init s) : Exact s :=
  exact_of_run (fun _ => Win32.incSize_of_lt) (fun _ => Win32.decSize_of_pos)
    (by rwa [Fintype.card_fin]) h

/-- **The count is right in every run.** Whatever order the operations of the threads come in,
the count is the number of references; while there is one the object is not destroyed and nobody
is about to; nobody holds one when it is destroyed; it is destroyed once at most, and once all
threads are through it has been. -/
theorem references_exact {n : ℕ} (hn : n ≤ Win32.SIZE_MAX) {s : Counter (Fin n)}
    (h : (refCounted n).Reachable s) :
    s.count = (holders s.phase).card ∧ s.destroyed ≤ 1 ∧
      (∀ i, s.phase i = .holding → s.destroyed = 0 ∧ ∀ j, s.phase j ≠ .last) ∧
      (∀ i t, (refCounted n).step s (.destroy i) = some t →
        t.destroyed = 1 ∧ ∀ j, t.phase j ≠ .holding) ∧
      (s.adopted = true → (∀ i, s.phase i = .out) → s.destroyed = 1) := by
  have hs : Exact s := exact_of_refCounted hn h
  refine ⟨hs.count, hs.destroyed_le_one, fun i hi => hs.held (hs.count_pos hi),
    fun i t hstep => ?_, fun hadopted hout => ?_⟩
  · have ht : Exact t :=
      exact_of_refCounted hn (Machine.RunWhere.tail h trivial hstep)
    obtain ⟨hi, rfl⟩ := Option.ite_none_right_eq_some.mp hstep |>.imp_right Option.some.inj
    have hzero : s.count = 0 := hs.count_eq_zero_of_last hi
    refine ⟨Nat.le_antisymm ht.destroyed_le_one (Nat.succ_pos _), not_holding_of_card ?_⟩
    exact ht.count.symm.trans hzero
  · have hzero : s.count = 0 := by
      rw [hs.count]
      refine Finset.card_eq_zero.mpr (Finset.filter_eq_empty_iff.mpr fun i _ => ?_)
      rw [hout i]
      decide
    rcases hs.dead hadopted hzero with ⟨-, i, hlast, -⟩ | ⟨hd, -⟩
    · exact absurd ((hout i).symm.trans hlast) (by decide)
    · exact hd

/-- Two references that are dropped one after the other destroy the object once. -/
theorem references_exact_two :
    ∃ s : Counter (Fin 2), (s.adopted = true ∧ ∀ i, s.phase i = .out) ∧ s.destroyed = 1 := by
  obtain ⟨s, hrun, hadopted, hout⟩ := Machine.exists_runWhere (M := refCounted 2)
    (G := fun _ _ => True) (s := (refCounted 2).init)
    (P := fun s => s.adopted = true ∧ ∀ i, s.phase i = .out)
    [.adopt 0, .copy 1 0, .drop 0, .look 0, .drop 1, .destroy 1] (by decide)
  exact ⟨s, ⟨hadopted, hout⟩, (references_exact (by decide) hrun).2.2.2.2 hadopted hout⟩

/-- **How long `decRef` returns the count of an object that is there.** In every run in which
`onRefZero()` comes when no other thread is between its `--_refCount` and its `return`, no thread
has read a destroyed object, nor has one still to; and after a step that does not meet this there
is a thread that has nothing left to do but to read the count of the destroyed object. -/
theorem returns_live_iff {n : ℕ} (hn : n ≤ Win32.SIZE_MAX) {s : Counter (Fin n)}
    (h : (refCounted n).RunWhere Counter.Settled (refCounted n).init s) :
    s.Undisturbed ∧ ∀ l t, (refCounted n).step s l = some t →
      (t.Undisturbed ↔ s.Settled l) ∧
      (¬s.Settled l → ∃ i u, t.phase i = .dropping ∧
        (refCounted n).step t (.look i) = some u ∧ u.stale = 1) := by
  have hall : Exact s ∧ s.Undisturbed := by
    refine h.invariant (I := fun s => Exact s ∧ s.Undisturbed)
      ⟨exact_init, rfl, fun hd => absurd hd (Nat.lt_irrefl 0)⟩ ?_
    rintro s l t ⟨hs, hu⟩ hl hstep
    exact ⟨hs.step (fun _ => Win32.incSize_of_lt) (fun _ => Win32.decSize_of_pos)
      (by rwa [Fintype.card_fin]) hstep, (hs.settled_iff hu hstep).mpr hl⟩
  obtain ⟨hs, hu⟩ := hall
  refine ⟨hu, fun l t hstep => ⟨hs.settled_iff hu hstep, fun hl => ?_⟩⟩
  obtain ⟨i, u, hi, hlook, hstale⟩ := exists_stale hstep hl
  exact ⟨i, u, hi, hlook, by rw [hstale, hu.1]⟩

/-- The object is destroyed once and undisturbed when two references are dropped at the same time
and the holder of the last one is done second. -/
theorem returns_live_two :
    ∃ s : Counter (Fin 2), s.destroyed = 1 ∧ s.Undisturbed := by
  obtain ⟨s, hrun, hdestroyed⟩ := Machine.exists_runWhere (M := refCounted 2)
    (G := Counter.Settled) (s := (refCounted 2).init) (P := fun s => s.destroyed = 1)
    [.adopt 0, .copy 1 0, .drop 0, .drop 1, .look 0, .destroy 1] (by decide)
  exact ⟨s, hdestroyed, (returns_live_iff (by decide) hrun).1⟩

/-- The last one first to be done. -/
example : ∃ s ∈ (refCounted 2).execWhere (fun _ _ => True) (refCounted 2).init
    [.adopt 0, .copy 1 0, .drop 0, .drop 1, .destroy 1, .look 0], s.stale = 1 := by
  decide

end Netknot
