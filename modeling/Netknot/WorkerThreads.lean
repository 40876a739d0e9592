import Mathlib.Data.Nat.Basic
import Netknot.Except

/-!
# Creating the Worker Threads

`createIOCPIOService` and the Unix `createDefaultIOService` create one thread for each slot of
`threadLocalData`. Both look for a failure: the Win32 backend compares the result of
`CreateThread` with `INVALID_HANDLE_VALUE`, while a failed `CreateThread` gives `NULL`; the
Unix backend asks whether `pthread_create` returned a negative number, while it returns the
error number itself, which is positive.

On a failure the Win32 backend is to release the threads it created, which wait suspended. The
loop of its guard runs over `j` and reads the slot at `idxWorkerThread` each time.

## Main results

* `createThreads_error`, `pthreadLoop_ok`: what the two backends take for a failure.
* `releaseThreads_eq`: which slot the guard releases, and how often.
* `creation_undetected`: no failure of the operating system is detected.
-/

namespace Netknot

/-- The points at which the creation of a service can fail. -/
inductive CreationFailure
  | wsaStartup
  | allocService
  | resize
  /-- The thread at this index. -/
  | thread (k : ℕ)
  | completionPort
  deriving DecidableEq, Repr

/-- How the creation of a service ends, with the slots of its threads. -/
inductive Creation (τ : Type)
  /-- It returns the null pointer, and `ioServiceOut` is the service. -/
  | created (threadLocalData : List τ)
  /-- It returns an exception; the slots are as the guards leave them. -/
  | failed (e : Exception) (point : CreationFailure) (threadLocalData : List τ)
  /-- The process ends. -/
  | terminated (point : CreationFailure)
  deriving DecidableEq, Repr

/-- **The failure of a thread is detected**: the creation ends there, and not with success. -/
def Creation.Detects {τ : Type} (k : ℕ) (creation : Creation τ) : Prop :=
  (∃ e threadLocalData, creation = .failed e (.thread k) threadLocalData) ∨
    creation = .terminated (.thread k)

/-! ### The Win32 backend -/

namespace Win32

/-- `HANDLE`. -/
abbrev HANDLE := BitVec 64

/-- `NULL`. -/
def NULL : HANDLE := 0

/-- `INVALID_HANDLE_VALUE`. -/
def INVALID_HANDLE_VALUE : HANDLE := BitVec.allOnes 64

/-- `Win32IOService::ThreadLocalData`. -/
structure ThreadLocalData where
  hThread : HANDLE := INVALID_HANDLE_VALUE
  terminate : Bool := false
  /-- History: how often `ResumeThread` was called with this `hThread`. -/
  resumed : ℕ := 0
  deriving DecidableEq, Repr

/-- What the operating system and the allocator answer. -/
structure CreationAnswers where
  wsaStartup : Bool := true
  allocService : Bool := true
  resize : Bool := true
  /-- `CreateThread`, for the thread at each index. -/
  createThread : ℕ → HANDLE
  /-- `CreateIoCompletionPort`. -/
  completionPort : HANDLE

/-- One turn of the loop of `releaseThreadsGuard`. -/
def ThreadLocalData.release (tld : ThreadLocalData) : ThreadLocalData :=
  { tld with terminate := true, resumed := tld.resumed + 1 }

/-- `releaseThreadsGuard`: `j` counts the turns, and every turn takes the slot at
`idxWorkerThread`. -/
def releaseThreads (idxWorkerThread : ℕ) (threadLocalData : List ThreadLocalData) :
    List ThreadLocalData :=
  (List.range idxWorkerThread).foldl
    (fun tlds _ => tlds.modify idxWorkerThread ThreadLocalData.release) threadLocalData

/-- The loop over `idxWorkerThread`, with the turns that are left. It stops early with the
index at which it found a failure. -/
def createThreads (createThread : ℕ → HANDLE) :
    ℕ → ℕ → List ThreadLocalData → Except (ℕ × List ThreadLocalData) (List ThreadLocalData)
  | 0, _, tlds => .ok tlds
  | turns + 1, idxWorkerThread, tlds =>
      let hThread := createThread idxWorkerThread
      if hThread = INVALID_HANDLE_VALUE then .error (idxWorkerThread, tlds)
      else createThreads createThread turns (idxWorkerThread + 1)
        (tlds.modify idxWorkerThread ({ · with hThread := hThread }))

/-- `createIOCPIOService`. -/
def createIOCPIOService (answers : CreationAnswers) (nWorkerThreads : ℕ) :
    Creation ThreadLocalData :=
  if !answers.wsaStartup then .terminated .wsaStartup
  else if !answers.allocService then .failed .outOfMemory .allocService []
  else if !answers.resize then .failed .outOfMemory .resize []
  else
    match createThreads answers.createThread nWorkerThreads 0
      (List.replicate nWorkerThreads {}) with
    | .error (idxWorkerThread, tlds) =>
        .failed .outOfMemory (.thread idxWorkerThread) (releaseThreads idxWorkerThread tlds)
    | .ok tlds =>
        if answers.completionPort = NULL then .terminated .completionPort else .created tlds

/-- The threads before `k` are created, and `CreateThread` fails at `k`. -/
def CreationAnswers.FailsAt (answers : CreationAnswers) (k : ℕ) : Prop :=
  (answers.wsaStartup = true ∧ answers.allocService = true ∧ answers.resize = true) ∧
    (∀ i < k, answers.createThread i ≠ NULL ∧ answers.createThread i ≠ INVALID_HANDLE_VALUE) ∧
    answers.createThread k = NULL

/-- **Exactly the threads before `k` are released**, each once. -/
def Released (k : ℕ) (threadLocalData : List ThreadLocalData) : Prop :=
  ∀ j tld, threadLocalData[j]? = some tld →
    (tld.terminate = true ↔ j < k) ∧ tld.resumed = if j < k then 1 else 0

/-- **The creation rolls back**: the failure is detected, and the guard releases what
was created. -/
def RollsBack (k : ℕ) (creation : Creation ThreadLocalData) : Prop :=
  creation.Detects k ∧
    ∀ e threadLocalData, creation = .failed e (.thread k) threadLocalData →
      Released k threadLocalData

/-- **What the loop takes for a failure** is the value `CreateThread` never gives. -/
theorem createThreads_error {createThread : ℕ → HANDLE} {turns idx k : ℕ}
    {tlds tlds' : List ThreadLocalData}
    (h : createThreads createThread turns idx tlds = .error (k, tlds')) :
    createThread k = INVALID_HANDLE_VALUE := by
  induction turns generalizing idx tlds with
  | zero => cases h
  | succ turns ih =>
      rw [createThreads] at h
      by_cases hinvalid : createThread idx = INVALID_HANDLE_VALUE
      · rw [if_pos hinvalid] at h
        obtain ⟨rfl, -⟩ := Prod.mk.inj (Except.error.inj h)
        exact hinvalid
      · rw [if_neg hinvalid] at h
        exact ih h

/-- A thread whose creation fails as `CreateThread` says is not detected. -/
theorem not_detects_of_null {answers : CreationAnswers} {n k : ℕ}
    (h : answers.createThread k = NULL) : ¬ (createIOCPIOService answers n).Detects k := by
  intro hdetects
  rw [createIOCPIOService] at hdetects
  cases hstartup : answers.wsaStartup with
  | false => simp [hstartup, Creation.Detects] at hdetects
  | true =>
      cases halloc : answers.allocService with
      | false => simp [hstartup, halloc, Creation.Detects] at hdetects
      | true =>
          cases hresize : answers.resize with
          | false => simp [hstartup, halloc, hresize, Creation.Detects] at hdetects
          | true =>
              cases hloop : createThreads answers.createThread n 0 (List.replicate n {}) with
              | error found =>
                  obtain ⟨idx, tlds⟩ := found
                  have hinvalid := createThreads_error hloop
                  obtain rfl : idx = k := by
                    simpa [hstartup, halloc, hresize, hloop, Creation.Detects] using hdetects
                  rw [h] at hinvalid
                  exact absurd hinvalid (by decide)
              | ok tlds =>
                  by_cases hport : answers.completionPort = NULL
                  · simp [hstartup, halloc, hresize, hloop, hport, Creation.Detects] at hdetects
                  · simp [hstartup, halloc, hresize, hloop, hport, Creation.Detects] at hdetects

/-- **The guard releases one slot only**: the one that has no thread, once for each thread. -/
theorem releaseThreads_eq (idx : ℕ) (tlds : List ThreadLocalData) :
    releaseThreads idx tlds = tlds.modify idx fun tld =>
      { tld with
        terminate := tld.terminate || decide (0 < idx)
        resumed := tld.resumed + idx } := by
  have hturns : ∀ turns, (List.range turns).foldl
      (fun tlds _ => tlds.modify idx ThreadLocalData.release) tlds =
        tlds.modify idx fun tld => { tld with
          terminate := tld.terminate || decide (0 < turns), resumed := tld.resumed + turns } := by
    intro turns
    induction turns with
    | zero =>
        have hid : (fun tld : ThreadLocalData => { tld with
            terminate := tld.terminate || decide (0 < 0), resumed := tld.resumed + 0 }) = id := by
          funext tld
          simp
        rw [hid, List.modify_id]
        rfl
    | succ turns ih =>
        rw [List.range_succ, List.foldl_append, ih]
        simp [ThreadLocalData.release, List.modify_modify_eq, Function.comp_def, Nat.add_assoc]
  exact hturns idx

/-- **The guard releases what was created** only when nothing was. -/
theorem released_releaseThreads_iff {k : ℕ} {tlds : List ThreadLocalData} (hk : k < tlds.length)
    (hfresh : ∀ tld ∈ tlds, tld.terminate = false ∧ tld.resumed = 0) :
    Released k (releaseThreads k tlds) ↔ k = 0 := by
  have hslot : (releaseThreads k tlds)[k]? = some { tlds[k] with
      terminate := tlds[k].terminate || decide (0 < k), resumed := tlds[k].resumed + k } := by
    rw [releaseThreads_eq, List.getElem?_modify_eq, List.getElem?_eq_getElem hk]
    rfl
  constructor
  · intro hreleased
    obtain ⟨-, hresumed⟩ := hreleased k _ hslot
    rw [if_neg (Nat.lt_irrefl k)] at hresumed
    dsimp only at hresumed
    omega
  · rintro rfl j tld hj
    have hmem : tld ∈ tlds := by
      have hstart : releaseThreads 0 tlds = tlds := rfl
      rw [hstart] at hj
      exact List.mem_of_getElem? hj
    obtain ⟨hterminate, hresumed⟩ := hfresh tld hmem
    rw [hterminate, hresumed, if_neg (Nat.not_lt_zero j)]
    exact ⟨iff_of_false Bool.false_ne_true (Nat.not_lt_zero j), rfl⟩

end Win32

/-! ### The Unix backend -/

namespace Unix

/-- `UnixIOService::ThreadLocalData`. -/
structure ThreadLocalData where
  hThread : Option ℕ := none
  terminate : Bool := false
  deriving DecidableEq, Repr

/-- What the operating system and the allocator answer. -/
structure CreationAnswers where
  allocService : Bool := true
  resize : Bool := true
  /-- `pthread_create`, for the thread at each index: 0 or an error number. -/
  pthreadCreate : ℕ → ℕ
  /-- What it leaves in `hThread`. -/
  handle : ℕ → ℕ := fun i => i

/-- The loop over `i`, with the turns that are left. It stops early with the index at which
it found a failure; each of the cases of `errno` is `std::terminate`. -/
def pthreadLoop (answers : CreationAnswers) :
    ℕ → ℕ → List ThreadLocalData → Except ℕ (List ThreadLocalData)
  | 0, _, tlds => .ok tlds
  | turns + 1, i, tlds =>
      let result : ℤ := answers.pthreadCreate i
      if result < 0 then .error i
      else pthreadLoop answers turns (i + 1)
        (tlds.modify i ({ · with hThread := some (answers.handle i) }))

/-- `createDefaultIOService`. -/
def createDefaultIOService (answers : CreationAnswers) (nWorkerThreads : ℕ) :
    Creation ThreadLocalData :=
  if !answers.allocService then .failed .outOfMemory .allocService []
  else if !answers.resize then .failed .outOfMemory .resize []
  else
    match pthreadLoop answers nWorkerThreads 0 (List.replicate nWorkerThreads {}) with
    | .error i => .terminated (.thread i)
    | .ok tlds => .created tlds

/-- The threads before `k` are created, and `pthread_create` fails at `k`. -/
def CreationAnswers.FailsAt (answers : CreationAnswers) (k : ℕ) : Prop :=
  (answers.allocService = true ∧ answers.resize = true) ∧
    (∀ i < k, answers.pthreadCreate i = 0) ∧ answers.pthreadCreate k ≠ 0

/-- **The loop finds no failure**: error numbers are not negative. -/
theorem pthreadLoop_ok (answers : CreationAnswers) (turns i : ℕ) (tlds : List ThreadLocalData) :
    ∃ tlds', pthreadLoop answers turns i tlds = .ok tlds' := by
  induction turns generalizing i tlds with
  | zero => exact ⟨tlds, rfl⟩
  | succ turns ih =>
      rw [pthreadLoop, if_neg (by omega)]
      exact ih (i + 1) _

/-- **A service with missing threads** is returned as if nothing had happened. -/
theorem created_of_failsAt {answers : CreationAnswers} {k : ℕ} (n : ℕ)
    (h : answers.FailsAt k) :
    ∃ tlds, createDefaultIOService answers n = .created tlds := by
  obtain ⟨⟨halloc, hresize⟩, -, -⟩ := h
  obtain ⟨tlds, hloop⟩ := pthreadLoop_ok answers n 0 (List.replicate n {})
  refine ⟨tlds, ?_⟩
  simp [createDefaultIOService, halloc, hresize, hloop]

end Unix

/-- **No failure to create a thread is detected**, on either backend, and the guard of the
Win32 backend would release what was created only when nothing was. -/
theorem creation_undetected (n k : ℕ) (hk : k < n) :
    (∀ answers : Win32.CreationAnswers, answers.FailsAt k →
      ¬ Win32.RollsBack k (Win32.createIOCPIOService answers n)) ∧
    (∀ answers : Unix.CreationAnswers, answers.FailsAt k →
      ¬ (Unix.createDefaultIOService answers n).Detects k) ∧
    ∀ tlds : List Win32.ThreadLocalData, tlds.length = n →
      (∀ tld ∈ tlds, tld.terminate = false ∧ tld.resumed = 0) →
        (Win32.Released k (Win32.releaseThreads k tlds) ↔ k = 0) := by
  refine ⟨?_, ?_, ?_⟩
  · intro answers hfails hrolls
    exact Win32.not_detects_of_null hfails.2.2 hrolls.1
  · intro answers hfails hdetects
    obtain ⟨tlds, hcreated⟩ := Unix.created_of_failsAt n hfails
    rw [hcreated] at hdetects
    rcases hdetects with ⟨e, tlds', h⟩ | h
    · cases h
    · cases h
  · intro tlds hlength hfresh
    exact Win32.released_releaseThreads_iff (hlength ▸ hk) hfresh

/-- Two threads, the second of which cannot be created. -/
def Win32.secondMissing : Win32.CreationAnswers where
  createThread := fun i => if i = 0 then 4 else NULL
  completionPort := 8

/-- Neither backend detects that the second of two threads is missing. -/
theorem Win32.secondMissing_undetected :
    ¬ Win32.RollsBack 1 (createIOCPIOService secondMissing 2) ∧
      ¬ (Unix.createDefaultIOService { pthreadCreate := fun i => if i = 0 then 0 else 11 }
        2).Detects 1 :=
  ⟨(creation_undetected 2 1 (by decide)).1 secondMissing
      ⟨⟨rfl, rfl, rfl⟩, by decide, rfl⟩,
    (creation_undetected 2 1 (by decide)).2.1 _ ⟨⟨rfl, rfl⟩, by decide, by decide⟩⟩

/-- On two threads, the second of which cannot be created, the Win32 backend succeeds. -/
theorem Win32.secondMissing_not_rollsBack :
    createIOCPIOService secondMissing 2 = .created [{ hThread := 4 }, { hThread := NULL }] ∧
      ¬ RollsBack 1 (createIOCPIOService secondMissing 2) := by
  have hcreated : createIOCPIOService secondMissing 2 =
      .created [{ hThread := 4 }, { hThread := NULL }] := by decide
  refine ⟨hcreated, fun hrolls => ?_⟩
  rcases hrolls.1 with ⟨e, tlds, h⟩ | h
  · rw [hcreated] at h
    cases h
  · rw [hcreated] at h
    cases h

end Netknot
