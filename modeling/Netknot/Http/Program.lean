import Netknot.Http.Accepting
import Netknot.Http.Process
import Netknot.Win32.Raised

/-!
# The Program

`main` of the example, from its `acceptAsync` on: it calls `run()`, and ends the process if that
returns an exception. Otherwise the scopes end: the server destroys its connections, and the
service waits for its threads and drops the tasks. `main` creates one worker; here there are any
number of them.

What the callbacks do while `main` is in `run()` is in `Process`. What is added is who makes which
submit call, and that a callback does not return before the calls it makes have. The set-up
before, in which every exception ends the process, is left out, and so is the listening socket.

An accept that goes wrong after the insert leaves an entry in the table whose connection is
destroyed already. `main` never comes to destroy it again: the exception of that accept is what
`run()` returns. Of an accept that is lost `run()` says nothing; then nothing has gone wrong in
those before it.

## Main results

* `Serving.other`: until `run()` returns, an exception that a callback returned is on its way to
  the caller of `run()`, and there is one if the server does not listen, unless its accept was
  lost.
* `Serving.closing`: what holds when `run()` has returned without an exception.
* `main_closes`: then `main` comes to its end and destroys every connection once, and what it
  leaves behind.
-/

namespace Netknot.Http

open Win32 (OpId Teardown TeardownPc)

/-- How far `main` is. -/
inductive MainPc
  /-- At or in `acceptAsync`. -/
  | accepting
  /-- In `run()`. -/
  | running
  /-- `acceptAsyncTask` goes out of scope. -/
  | releasing
  /-- `~HttpServer` destroys the connections. -/
  | disconnecting
  /-- `~Win32IOService`. -/
  | destroying (pc : TeardownPc)
  /-- `run()` returned an exception, and `main` called `std::terminate`. -/
  | terminated
  deriving DecidableEq, Repr

/-- `run()` has returned without an exception. -/
def MainPc.closing : MainPc → Bool
  | .releasing | .disconnecting | .destroying _ => true
  | .accepting | .running | .terminated => false

/-- The program: the process, and `main`, which runs it and destroys it. -/
structure Program (n : ℕ) where
  process : Process n
  pc : MainPc
  /-- The submit calls that the callback of a task makes. -/
  posts : OpId → List OpId

/-- What happens in the program. -/
inductive ProgramLabel (n : ℕ)
  /-- `main` goes on. -/
  | next
  /-- Another thread does something, or the kernel, or the thread of `main` inside a call. -/
  | other (l : ProcessLabel n)

/-- `main` goes on. -/
def ProgramLabel.isNext {n : ℕ} : ProgramLabel n → Bool
  | .next => true
  | .other _ => false

namespace Process

variable {n : ℕ}

/-- The submit call of `o` is over, or it has no callback and is not made. -/
def finished (p : Process n) (o : OpId) : Bool :=
  match (p.service.calls o).pc with
  | .idle => (p.callback o).isNone
  | .returned _ => true
  | _ => false

/-- `acceptAsyncTask` drops the task, if it holds one. -/
def releaseAccept (p : Process n) : Process n :=
  ((p.service.step (.submit 0 .release)).map (p.follow (.submit 0 .release))).getD p

/-- `~HttpServer` destroys the connection `c`; the others are `rest`. -/
def disconnect (p : Process n) (c : ConnectionId) (rest : List ConnectionId) : Process n :=
  { p with server := { p.server.destroyConnection c with connections := rest } }

end Process

namespace Program

variable {n : ℕ}

/-- The service makes a step. -/
def follow (m : Program n) (l : Win32.Label n) (t : Win32.State n) : Program n :=
  { m with process := m.process.follow l t }

/-- `~Win32IOService` makes a step. -/
def setService (m : Program n) (t : Win32.State n) : Program n :=
  { m with process := { m.process with service := t } }

/-- A worker is in a callback that makes the submit call of `o`. -/
def Makes (m : Program n) (o : OpId) : Prop :=
  ∃ w, ∃ o' ∈ m.process.atCallback w, m.process.returned o' ≠ none ∧ o ∈ m.posts o'

instance (m : Program n) (o : OpId) : Decidable (m.Makes o) :=
  inferInstanceAs (Decidable (∃ w, ∃ o' ∈ m.process.atCallback w,
    m.process.returned o' ≠ none ∧ o ∈ m.posts o'))

/-- Who makes which step: `run()` is called by `main`, and a submit call is made by `main` or by a
callback, which does not return before it. -/
def allows (m : Program n) : ProcessLabel n → Bool
  | .service (.run .call) => false
  | .service (.submit o choice) => choice = .release ∨ o = 0 ∧ m.pc = .accepting ∨ m.Makes o
  | .service (.worker w (.ret _)) =>
      (m.process.atCallback w).all fun o => (m.posts o).all m.process.finished
  | _ => true

/-- The submit calls of the callback that runs are noted. -/
def noted (m : Program n) : ProcessLabel n → OpId → List OpId
  | .onAccepted w _ _ read next =>
      (m.process.atCallback w).elim m.posts fun o => Function.update m.posts o [read, next]
  | .onStatusChanged w _ _ next =>
      (m.process.atCallback w).elim m.posts fun o => Function.update m.posts o [next]
  | .service _ => m.posts

/-- `main`, from where it is; `assertions` when they are compiled in. -/
def next (env : Env) (assertions : Bool) (m : Program n) : Option (Program n) :=
  match m.pc with
  | .accepting =>
      -- an exception that `acceptAsync` returned would have ended the process
      if (m.process.service.calls 0).pc = .returned none then
        (m.process.step env (.service (.run .call))).map fun p =>
          { m with process := p, pc := .running }
      else none
  | .running =>
      if m.process.running ∧ m.process.service.runPc = .outside then
        m.process.service.result.map fun e =>
          { m with pc := if e.isSome then .terminated else .releasing }
      else none
  | .releasing => some { m with process := m.process.releaseAccept, pc := .disconnecting }
  | .disconnecting =>
      match m.process.server.connections with
      | c :: rest => some { m with process := m.process.disconnect c rest }
      | [] => some { m with pc := .destroying (.joining 0) }
  | .destroying pc =>
      (Teardown.next assertions ⟨m.process.service, pc⟩).map fun d =>
        { m.setService d.service with pc := .destroying d.pc }
  | .terminated => none

/-- One step. -/
def step (env : Env) (assertions : Bool) (m : Program n) :
    ProgramLabel n → Option (Program n)
  | .next => m.next env assertions
  | .other l =>
      if m.pc ≠ .terminated ∧ m.allows l then
        (m.process.step env l).map fun p => { m with process := p, posts := m.noted l }
      else none

end Program

/-- The program as a machine. -/
def program (n : ℕ) (env : Env) (assertions : Bool) :
    Machine (Program n) (ProgramLabel n) where
  init := { process := (process n env).init, pc := .accepting, posts := fun _ => [] }
  step := Program.step env assertions

/-! ### While `main` is in `run()` -/

namespace Process

variable {n : ℕ} {p : Process n}

/-- A worker in the callback of a task is at this program point. -/
theorem pc_of_atCallback {w : Fin n} {o : OpId} (hw : p.atCallback w = some o) :
    ∃ sz, (p.service.workers w).pc = .handling o sz .callback := by
  rw [atCallback] at hw
  split at hw
  · rename_i o' sz hpc
    obtain rfl : o' = o := Option.some.inj hw
    exact ⟨sz, hpc⟩
  · cases hw

/-- A worker at this program point is in the callback of the task. -/
theorem atCallback_of_pc {w : Fin n} {o : OpId} {sz : ℕ}
    (hw : (p.service.workers w).pc = .handling o sz .callback) : p.atCallback w = some o := by
  rw [atCallback, hw]

/-- A submit call is finished if it was not made and has no callback, or has returned. -/
theorem finished_iff {o : OpId} : p.finished o = true ↔
    (p.service.calls o).pc = .idle ∧ p.callback o = none ∨
      ∃ e, (p.service.calls o).pc = .returned e := by
  rw [finished]
  cases (p.service.calls o).pc <;> simp

end Process

namespace Program

variable {n : ℕ} {env : Env} {assertions : Bool} {m : Program n}

/-- **The invariant** until `run()` returns without an exception. -/
structure Serving (env : Env) (m : Program n) : Prop where
  reachable : (Http.process n env).Reachable m.process
  /-- What was given a callback has not run it. -/
  unrun : ∀ o, m.process.callback o ≠ none → m.process.returned o = none
  /-- A worker is behind the callback of a task only if that has run. -/
  passed : ∀ o, (m.process.service.calls o).packet.passed = true → m.process.returned o ≠ none
  /-- An exception is in the hand of a worker, or on its way to the caller of `run()`. -/
  raised : ∀ o e, m.process.returned o = some (some e) →
    m.process.service.Raised ∨ ∃ w, m.process.atCallback w = some o
  /-- There is one if the server does not listen, or the accept was lost. -/
  closed : m.process.server.listening = false →
    (∃ o e, m.process.returned o = some (some e)) ∨ m.process.server.lostAccept = true
  /-- Whoever makes a submit call is there as long as it is not over. -/
  attended : ∀ o, m.process.finished o = false → o = 0 ∧ m.pc = .accepting ∨ m.Makes o
  /-- What was given a callback does not fail. -/
  given : ∀ o, m.process.callback o ≠ none → (m.process.service.calls o).pc.failed = false
  /-- `run()` was not called yet. -/
  fresh : m.pc = .accepting → m.process.service.runPc = .outside ∧
    m.process.service.isRunning = false ∧ ∀ o, m.process.returned o = none
  ended : m.pc = .running → m.process.service.runPc = .outside → m.process.service.Over

/-- The program serves at the start. -/
theorem serving_init (n : ℕ) (env : Env) (assertions : Bool) :
    (program n env assertions).init.Serving env where
  reachable := .refl
  unrun := fun _ _ => rfl
  passed := fun _ hpassed => by cases hpassed
  raised := fun _ _ he => by cases he
  closed := fun hlistening => by cases hlistening
  attended := fun o hfinished => by
    by_cases ho : o = 0
    · exact .inl ⟨ho, rfl⟩
    · have hnone : (Http.process n env).init.callback o = none := by
        exact Function.update_of_ne ho (some Callback.accept) fun _ => none
      have hover := Process.finished_iff.mpr (.inl ⟨rfl, hnone⟩)
      exact absurd (hfinished.symm.trans hover) Bool.false_ne_true
  given := fun _ _ => rfl
  fresh := fun _ => ⟨rfl, rfl, fun _ => rfl⟩
  ended := fun hpc => by cases hpc

/-- The service that a process runs on is in a state it can come to by itself. -/
theorem Serving.service_reachable (h : m.Serving env) :
    (Win32.service n).Reachable m.process.service :=
  (Process.linked_of_run h.reachable).2.1

section Service

variable {l : Win32.Label n} {t : Win32.State n}

/-- A callback that has run and makes submit calls stays where it is until these are over. -/
theorem Makes.service {o : OpId} (h : m.Makes o) (hallows : m.allows (.service l) = true)
    (hadmits : m.process.admits t l = true) (hstep : m.process.service.step l = some t) :
    m.process.finished o = true ∧ (∃ w e, l = .worker w (.ret e)) ∨ (m.follow l t).Makes o := by
  obtain ⟨w, o', hw, hrun, ho⟩ := h
  obtain ⟨sz, hpc⟩ := Process.pc_of_atCallback hw
  rcases Win32.State.callback_of_step hpc hstep with hstays | rfl | ⟨e, rfl, -⟩
  · exact .inr ⟨w, o', Process.atCallback_of_pc hstays, hrun, ho⟩
  · have hnone : m.process.returned o' = none := by
      simpa [Process.admits, Option.mem_def.mp hw] using hadmits
    exact absurd hnone hrun
  · left
    have hall : (m.posts o').all m.process.finished = true := by
      simpa [allows, Option.mem_def.mp hw] using hallows
    exact ⟨List.all_eq_true.mp hall o ho, w, e, rfl⟩

/-- A task that is released was submitted. -/
theorem pc_of_release {s t : Win32.State n} {o : OpId}
    (hstep : s.step (.submit o .release) = some t) (o' : OpId) :
    (t.calls o').pc = (s.calls o').pc := by
  obtain ⟨-, hgo⟩ := Option.ite_none_left_eq_some.mp hstep
  obtain ⟨a, ha, rfl⟩ := Option.map_eq_some_iff.mp hgo
  cases Win32.Call.submits_of_submit ha with
  | release hpc href =>
      by_cases heq : o' = o
      · subst heq
        simp [Win32.State.setCall, hpc]
      · simp [Win32.State.setCall, heq]

/-- A step of the service that leaves a submit call where it is does not change whether the call
is finished. -/
theorem finished_congr {o : OpId}
    (hpc : (t.calls o).pc = (m.process.service.calls o).pc) :
    (m.follow l t).process.finished o = m.process.finished o := by
  simp only [Process.finished, follow, Process.follow, hpc]

/-- **A step of the service** keeps the program serving. -/
theorem Serving.service (h : m.Serving env) (hallows : m.allows (.service l) = true)
    (hstep : m.process.service.step l = some t) (hadmits : m.process.admits t l = true)
    (hprocess : (Http.process n env).Reachable (m.follow l t).process) :
    (m.follow l t).Serving env := by
  have hcoh := Win32.service_coherent h.service_reachable
  obtain ⟨ho, hclean, -⟩ := Win32.clean_of_run h.service_reachable
  have hcall : l ≠ .run .call := by
    rintro rfl
    cases hallows
  refine ⟨hprocess, h.unrun, fun o hpassed => ?_, fun o e he => ?_, fun hlistening => ?_,
    fun o hfinished => ?_, fun o hgiven => ?_, fun hpc => ?_, fun hpc hout => ?_⟩
  · rcases Win32.State.passed_of_step hcoh hstep hpassed with hold | ⟨w, sz, e, rfl, hw⟩
    · exact h.passed o hold
    · have hreturned : m.process.returned o = some e := by
        simpa [Process.admits, Process.atCallback_of_pc hw] using hadmits
      exact fun hnone => Option.some_ne_none e (hreturned.symm.trans hnone)
  · have he' : m.process.returned o = some (some e) := he
    rcases h.raised o e he' with hraised | ⟨w, hw⟩
    · exact .inl (hraised.step ho hclean hcall hstep)
    · obtain ⟨sz, hpc⟩ := Process.pc_of_atCallback hw
      rcases Win32.State.callback_of_step hpc hstep with hstays | rfl | ⟨e', rfl, hstored⟩
      · exact .inr ⟨w, Process.atCallback_of_pc hstays⟩
      · have hnone : m.process.returned o = none := by simpa [Process.admits, hw] using hadmits
        rw [hnone] at he'
        cases he'
      · have hreturned : m.process.returned o = some e' := by
          simpa [Process.admits, hw] using hadmits
        obtain rfl : e' = some e := Option.some.inj (hreturned.symm.trans he')
        exact .inl (.inl ⟨w, fun hnone => Option.some_ne_none e (hstored.symm.trans hnone)⟩)
  · have hmatched := (Process.linked_of_run h.reachable).1.matched
    rcases (hmatched.follow hcoh hstep).2 with hsame | ⟨cb, -, hlose⟩
    · rw [follow, hsame] at hlistening ⊢
      exact h.closed hlistening
    · rw [follow, hlose] at hlistening ⊢
      rcases HttpServer.listening_lose with ⟨hlistens, hlost⟩ | ⟨-, hlost⟩
      · rw [hlost]
        exact h.closed (hlistens.symm.trans hlistening)
      · exact .inr hlost
  · have hmade : o = 0 ∧ m.pc = .accepting ∨ m.Makes o := by
      cases hbefore : m.process.finished o with
      | false => exact h.attended o hbefore
      | true =>
          by_cases hsub : ∃ choice, l = .submit o choice
          · obtain ⟨choice, rfl⟩ := hsub
            rcases of_decide_eq_true hallows with rfl | hmade
            · rw [finished_congr (pc_of_release hstep o), hbefore] at hfinished
              cases hfinished
            · exact hmade
          · have hsame := Process.pc_of_step hcoh hstep fun choice heq => hsub ⟨choice, heq⟩
            rw [finished_congr hsame, hbefore] at hfinished
            cases hfinished
    refine hmade.imp_right fun hmakes => ?_
    rcases hmakes.service hallows hadmits hstep with ⟨hbefore, w, e, rfl⟩ | hstays
    · have hsame := @Process.pc_of_step n _ _ _ o hcoh hstep fun _ heq => by cases heq
      rw [finished_congr hsame, hbefore] at hfinished
      cases hfinished
    · exact hstays
  · by_cases hsub : ∃ choice, l = .submit o choice
    · obtain ⟨choice, rfl⟩ := hsub
      obtain ⟨cb, hcb⟩ := Option.ne_none_iff_exists'.mp hgiven
      have hkeeps : m.process.keeps o choice t = true := hadmits
      have hcb' : m.process.callback o = some cb := hcb
      simp only [Process.keeps, hcb', Bool.and_eq_true, Bool.not_eq_true'] at hkeeps
      exact hkeeps.1
    · have hsame := Process.pc_of_step hcoh hstep fun choice heq => hsub ⟨choice, heq⟩
      have hold := h.given o hgiven
      rwa [← hsame] at hold
  · obtain ⟨hout, hidle, hreturned⟩ := h.fresh hpc
    have hrested := Win32.State.rested_of_step (ho.not_active hout) hout hcall hstep
    exact ⟨hrested.outside, hrested.isRunning.trans hidle, hreturned⟩
  · by_cases hin : m.process.service.runPc = .outside
    · exact (h.ended hpc hin).step hcall hstep
    · exact Win32.over_of_return h.service_reachable hstep hin hout

end Service

section Callback

variable {p : Process n} {w : Fin n} {o : OpId} {e : ExceptionPointer} {posts : List OpId}

/-- What the callback of `o` does to the process, for worker `w`: it makes the submit calls
`posts`, each of them a new one, and returns `e`. -/
structure Ran (q p : Process n) (w : Fin n) (o : OpId) (e : ExceptionPointer)
    (posts : List OpId) : Prop where
  worker : q.atCallback w = some o
  unrun : q.callback o ≠ none
  service : p.service = q.service
  returned : p.returned = Function.update q.returned o (some e)
  callback : ∀ o', p.callback o' ≠ none →
    o' ≠ o ∧ q.callback o' ≠ none ∨ o' ∈ posts ∧ q.Fresh o'
  listening : p.server.listening = false → q.server.listening = false ∨ e ≠ none
  lostAccept : p.server.lostAccept = q.server.lostAccept

/-- **A callback that runs** keeps the program serving. -/
theorem Serving.ran (h : m.Serving env) (hran : Ran m.process p w o e posts)
    (hprocess : (Http.process n env).Reachable p) :
    ({ m with process := p, posts := Function.update m.posts o posts } : Program n).Serving
      env := by
  have hnone : m.process.returned o = none := h.unrun o hran.unrun
  have hself : p.returned o = some e := by
    rw [hran.returned, Function.update_self]
  have hother : ∀ {o'}, o' ≠ o → p.returned o' = m.process.returned o' := fun hne => by
    rw [hran.returned, Function.update_of_ne hne]
  have hkept : ∀ {o'}, m.process.returned o' ≠ none → p.returned o' = m.process.returned o' :=
    fun hrun => hother fun heq => hrun (heq ▸ hnone)
  have hat : ∀ w', p.atCallback w' = m.process.atCallback w' := fun w' => by
    rw [Process.atCallback, Process.atCallback, hran.service]
  have hnew : ∀ {o'}, m.process.Fresh o' → o' ≠ o := by
    rintro _ hfresh rfl
    exact hran.unrun hfresh.2.1
  refine ⟨hprocess, fun o' ho' => ?_, fun o' hpassed => ?_, fun o' e' he' => ?_,
    fun hlistening => ?_, fun o' hfinished => ?_, fun o' ho' => ?_, fun hpc => ?_, ?_⟩
  · rcases hran.callback o' ho' with ⟨hne, hgiven⟩ | ⟨-, hfresh⟩
    · exact (hother hne).trans (h.unrun o' hgiven)
    · exact (hother (hnew hfresh)).trans hfresh.2.2
  · have hold : m.process.returned o' ≠ none := h.passed o' (hran.service ▸ hpassed)
    exact fun hnone => hold ((hkept hold).symm.trans hnone)
  · by_cases heq : o' = o
    · subst heq
      exact .inr ⟨w, (hat w).trans hran.worker⟩
    · have hold := h.raised o' e' ((hother heq).symm.trans he')
      rw [hran.service]
      exact hold.imp_right (Exists.imp fun w' hw' => (hat w').trans hw')
  · rcases hran.listening hlistening with hold | he
    · refine (h.closed hold).imp (fun hraised => ?_) hran.lostAccept.trans
      obtain ⟨o', e', he'⟩ := hraised
      have hrun : m.process.returned o' ≠ none := he' ▸ Option.some_ne_none _
      exact ⟨o', e', (hkept hrun).trans he'⟩
    · obtain ⟨e', rfl⟩ := Option.ne_none_iff_exists'.mp he
      exact .inl ⟨o, e', hself⟩
  · by_cases hpost : o' ∈ posts
    · refine .inr ⟨w, o, (hat w).trans hran.worker, hself ▸ Option.some_ne_none e, ?_⟩
      simpa using hpost
    · have hbefore : m.process.finished o' = false := by
        rw [Bool.eq_false_iff] at hfinished ⊢
        refine mt (fun hover => ?_) hfinished
        rw [Process.finished_iff, hran.service]
        rcases Process.finished_iff.mp hover with ⟨hpc, hcb⟩ | hreturned
        · refine .inl ⟨hpc, ?_⟩
          by_contra hgiven
          rcases hran.callback o' hgiven with ⟨-, hgiven'⟩ | ⟨hmem, -⟩
          · exact hgiven' hcb
          · exact hpost hmem
        · exact .inr hreturned
      refine (h.attended o' hbefore).imp_right fun hmakes => ?_
      obtain ⟨w', o'', hw', hrun, hmem⟩ := hmakes
      have hne : o'' ≠ o := fun heq => hrun (heq ▸ hnone)
      refine ⟨w', o'', (hat w').trans hw', (hkept hrun).symm ▸ hrun, ?_⟩
      simpa [hne] using hmem
  · rcases hran.callback o' ho' with ⟨-, hgiven⟩ | ⟨-, hfresh⟩
    · have hold := h.given o' hgiven
      rwa [← hran.service] at hold
    · change (p.service.calls o').pc.failed = false
      rw [hran.service, hfresh.1]
      rfl
  · obtain ⟨sz, hhandling⟩ := Process.pc_of_atCallback hran.worker
    have hserving := (Win32.service_ordered h.service_reachable).active w (by rw [hhandling]; rfl)
    rw [(h.fresh hpc).1] at hserving
    cases hserving
  · rw [hran.service]
    exact h.ended

end Callback

/-- `onAccepted` returns an exception if the server does not listen then. -/
theorem ran_accepted {p : Process n} {w : Fin n} {o : OpId} {c : ConnectionId}
    {ch : AcceptChoices} {read next : OpId} (hw : p.atCallback w = some o)
    (hcb : p.callback o = some .accept) (hread : p.Fresh read) (hnext : p.Fresh next) :
    Ran p (p.accepted o c ch read next) w o (p.server.onAccepted c ch).1 [read, next] where
  worker := hw
  unrun := hcb ▸ Option.some_ne_none _
  service := rfl
  returned := rfl
  callback := fun o' ho' => by
    obtain ⟨cb', hcb'⟩ := Option.ne_none_iff_exists'.mp ho'
    rcases Process.of_give hcb' with ⟨rfl, -⟩ | hcb'
    · exact .inr ⟨by simp, hnext⟩
    · rcases Process.of_give hcb' with ⟨rfl, -⟩ | hcb'
      · exact .inr ⟨by simp, hread⟩
      · obtain ⟨hne, hcb'⟩ := Process.of_update hcb'
        exact .inl ⟨hne, hcb' ▸ Option.some_ne_none _⟩
  listening := fun hlistening => .inr fun hnone => by
    have hlistens : (p.server.onAccepted c ch).2.listening = true :=
      onAccepted_listening.trans (onAccepted_returns.mp hnone)
    exact Bool.false_ne_true (hlistening.symm.trans hlistens)
  lostAccept := onAccepted_lostAccept

/-- `onStatusChanged` leaves that to `onAccepted`. -/
theorem ran_statusChanged {p : Process n} {w : Fin n} {o : OpId} {c : ConnectionId} {op : Op}
    {ch : Choices} {sv : Bytes} {next : OpId} (hw : p.atCallback w = some o)
    (hcb : p.callback o = some (.operation c op)) (hnext : p.Fresh next) :
    ∃ e, Ran p (p.statusChanged env o c op ch sv next) w o e [next] := by
  refine ⟨_, hw, hcb ▸ Option.some_ne_none _, rfl, rfl, fun o' ho' => ?_, .inl, rfl⟩
  obtain ⟨cb', hcb'⟩ := Option.ne_none_iff_exists'.mp ho'
  rcases Process.of_give hcb' with ⟨rfl, -⟩ | hcb'
  · exact .inr ⟨List.mem_singleton_self o', hnext⟩
  · obtain ⟨hne, hcb'⟩ := Process.of_update hcb'
    exact .inl ⟨hne, hcb' ▸ Option.some_ne_none _⟩

/-- A step that is not one of `main` itself is one of the process, and what it posts is noted. -/
theorem other_of_step {m' : Program n} {l : ProcessLabel n}
    (h : m.step env assertions (.other l) = some m') :
    m.allows l = true ∧
      ∃ p, m.process.step env l = some p ∧ m' = { m with process := p, posts := m.noted l } := by
  obtain ⟨⟨-, hallows⟩, hgo⟩ := Option.ite_none_right_eq_some.mp h
  obtain ⟨p, hp, rfl⟩ := Option.map_eq_some_iff.mp hgo
  exact ⟨hallows, p, hp, rfl⟩

/-- **Every step** but those of `main` itself keeps the invariant. -/
theorem Serving.other {m' : Program n} {l : ProcessLabel n} (h : m.Serving env)
    (hstep : m.step env assertions (.other l) = some m') : m'.Serving env := by
  obtain ⟨hallows, p, hp, rfl⟩ := other_of_step hstep
  have hprocess : (Http.process n env).Reachable p := h.reachable.tail trivial hp
  cases Process.moves_of_step hp with
  | service hgo hadmits => exact h.service hallows hgo hadmits hprocess
  | onAccepted hw hcb hnew hread hnext hne =>
      have hran := h.ran (ran_accepted hw hcb hread hnext) hprocess
      simpa only [noted, hw, Option.elim_some] using hran
  | onStatusChanged hw hcb hnext hsize =>
      obtain ⟨e, hran⟩ := @ran_statusChanged _ env _ _ _ _ _ _ _ _ hw hcb hnext
      have hserving := h.ran hran hprocess
      simpa only [noted, hw, Option.elim_some] using hserving

/-- **The call of `run()`** by `main` keeps the program serving. -/
theorem Serving.call {p : Process n} (h : m.Serving env) (hpc : m.pc = .accepting)
    (hsubmitted : (m.process.service.calls 0).pc = .returned none)
    (hstep : m.process.step env (.service (.run .call)) = some p) :
    ({ m with process := p, pc := .running } : Program n).Serving env := by
  obtain ⟨hout, hidle, hreturned⟩ := h.fresh hpc
  have hgo : (Http.process n env).step m.process (.service (.run .call)) = some p := hstep
  have hprocess : (Http.process n env).Reachable p := h.reachable.tail trivial hgo
  cases Process.moves_of_step hstep with
  | service hservice hadmits =>
      obtain ⟨-, hrun⟩ := Option.ite_none_left_eq_some.mp hservice
      cases Win32.State.runs_of_runStep hrun with
      | guard _ hrunning => exact absurd (hidle.symm.trans hrunning) Bool.false_ne_true
      | enter =>
          refine ⟨hprocess, h.unrun, h.passed, fun o e he => ?_, h.closed, fun o hfinished => ?_,
            h.given, fun hpc => (by cases hpc), fun _ hout => (by cases hout)⟩
          · exact absurd ((hreturned o).symm.trans he) (Option.some_ne_none _).symm
          · have hbefore : m.process.finished o = false := hfinished
            refine .inr ((h.attended o hbefore).resolve_left ?_)
            rintro ⟨rfl, -⟩
            have hover := Process.finished_iff.mpr (.inr ⟨none, hsubmitted⟩)
            exact Bool.false_ne_true (hbefore.symm.trans hover)

end Program

/-! ### After `run()` -/

/-- As long as every accept succeeds, every socket that came in is in the table, once. -/
theorem HttpServer.Accounts.owned {server : HttpServer} {accepts : Accepts}
    (h : server.Accounts accepts) (hsucceed : accepts.all (·.2.succeeds) = true)
    {c : ConnectionId} (hc : (server.ledger c).accepted = true) :
    (server.ledger c).allocated = true ∧ server.SingleOwner c := by
  obtain ⟨a, ha, rfl⟩ := List.mem_map.mp ((h.accepted c).mp hc)
  have hsucceeds : a.2.succeeds = true := List.all_eq_true.mp hsucceed a ha
  have hentry := (h.ledger a ha).trans (AcceptChoices.entry_of_succeeds hsucceeds)
  have hmem : a.1 ∈ server.connections := by
    rw [h.table, List.mem_reverse]
    exact List.mem_map_of_mem
      (List.mem_filter.mpr ⟨ha, AcceptChoices.enters_of_succeeds hsucceeds⟩)
  have hnodup : server.connections.Nodup := by
    rw [h.table, List.nodup_reverse]
    exact h.nodup.sublist (List.filter_sublist.map Prod.fst)
  rw [SingleOwner, hentry]
  exact ⟨rfl, .inl ⟨List.count_eq_one_of_mem hnodup hmem, rfl, rfl⟩⟩

/-- What is in the table came in. -/
theorem HttpServer.Accounts.entered {server : HttpServer} {accepts : Accepts}
    (h : server.Accounts accepts) {c : ConnectionId} (hc : c ∈ server.connections) :
    (server.ledger c).accepted = true := by
  rw [h.table, List.mem_reverse] at hc
  obtain ⟨a, ha, rfl⟩ := List.mem_map.mp hc
  exact (h.accepted _).mpr (List.mem_map_of_mem (List.mem_filter.mp ha).1)

namespace Process

variable {n : ℕ}

/-- **What holds of the process** when `run()` has returned without an exception. -/
structure Closing (p : Process n) : Prop where
  outside : p.service.runPc = .outside
  exited : ∀ w, (p.service.workers w).pc = .exited
  stored : ∀ w, (p.service.workers w).exceptionStorage = none
  returned : ∀ o e, p.returned o = some e → e = none
  listening : p.server.listening = !p.server.lostAccept
  coherent : p.service.Coherent
  matched : p.Matched
  owned : ∀ c, (p.server.ledger c).accepted = true →
    (p.server.ledger c).allocated = true ∧ p.server.SingleOwner c
  entered : ∀ c ∈ p.server.connections, (p.server.ledger c).accepted = true
  left : ∀ o ∈ p.service.currentTasks, (p.service.calls o).Left
  given : ∀ o, p.callback o ≠ none →
    (p.service.calls o).failPoint = some .kernelCall ∧ (p.service.calls o).lost = true ∨
      (p.service.calls o).Left

end Process

/-- **A return of `run()` without an exception** leaves the program closing. -/
theorem Program.Serving.closing {n : ℕ} {env : Env} {m : Program n} (h : m.Serving env)
    (hpc : m.pc = .running) (hout : m.process.service.runPc = .outside)
    (hresult : m.process.service.result = some none) : m.process.Closing := by
  have hover := h.ended hpc hout
  obtain ⟨hlinked, hservice, hserver⟩ := Process.linked_of_run h.reachable
  have hcallback : ∀ w o, m.process.atCallback w ≠ some o := by
    intro w o hw
    obtain ⟨sz, hw⟩ := Process.pc_of_atCallback hw
    rw [hover.exited] at hw
    cases hw
  have hreturned : ∀ o e, m.process.returned o = some e → e = none := by
    intro o e he
    by_contra hne
    obtain ⟨e, rfl⟩ := Option.ne_none_iff_exists'.mp hne
    rcases h.raised o e he with hraised | ⟨w, hw⟩
    · exact hover.not_raised hresult hraised
    · exact hcallback w o hw
  have hopen : m.process.server.listening = true ∨ m.process.server.lostAccept = true := by
    rw [or_iff_not_imp_left, Bool.not_eq_true]
    refine fun hclosed => (h.closed hclosed).resolve_left ?_
    rintro ⟨o, e, he⟩
    cases hreturned o _ he
  have hfinished : ∀ o, m.process.finished o = true := by
    intro o
    rw [← Bool.not_eq_false]
    intro hbefore
    rcases h.attended o hbefore with ⟨-, haccepting⟩ | ⟨w, o', hw, -⟩
    · rw [hpc] at haccepting
      cases haccepting
    · exact hcallback w o' hw
  have hidle : m.process.service.Idle :=
    ⟨hout, fun o => (Process.finished_iff.mp (hfinished o)).imp_left And.left⟩
  have hstill : m.process.service.Still := fun w => .inl (hover.exited w)
  have hleft : ∀ o ∈ m.process.service.currentTasks, (m.process.service.calls o).Left :=
    fun o ho => Win32.left_of_idle hservice hidle hstill ho
  obtain ⟨past, hrun⟩ := hserver.remember {} Past.note {}
  have haccounts := HttpServer.accounts_of_run hrun
  have hsucceed : past.accepts.all (·.2.succeeds) = true := by
    rcases hopen with hlistening | hlost
    · exact (Bool.and_eq_true_iff.mp (haccounts.listening.symm.trans hlistening)).1
    · exact haccounts.lost hlost
  have hlistening : m.process.server.listening = !m.process.server.lostAccept := by
    rw [haccounts.listening, hsucceed, Bool.true_and]
  refine ⟨hout, hover.exited, hover.not_stored hresult, hreturned, hlistening, hlinked.coherent,
    hlinked.matched, fun c => haccounts.owned hsucceed, fun c => haccounts.entered, hleft,
    fun o hgiven => ?_⟩
  -- a call that was given a callback has returned no exception, and nobody has the packet
  have hpc : (m.process.service.calls o).pc = .returned none := by
    rcases Process.finished_iff.mp (hfinished o) with ⟨-, hnone⟩ | ⟨e, he⟩
    · exact absurd hnone hgiven
    · have hnot := h.given o hgiven
      rw [he] at hnot
      cases e with
      | none => exact he
      | some e => cases hnot
  have hheld : ∀ stage, (m.process.service.calls o).packet ≠ .held stage := by
    intro stage hp
    obtain ⟨w, hw⟩ := (hlinked.coherent o).holder stage hp
    rw [hover.exited] at hw
    cases hw
  have hpassed : (m.process.service.calls o).packet.passed = false := by
    rw [Bool.eq_false_iff]
    exact fun hpassed => h.passed o hpassed (h.unrun o hgiven)
  have hlife := Win32.reachable_life hservice o
  obtain ⟨⟨-, hexits⟩, hcounted⟩ := Win32.lifecycle_counted hlife
  cases hfail : (m.process.service.calls o).failPoint with
  | some p =>
      obtain ⟨-, e, he, hkernel, -⟩ := hexits.failed p hfail
      obtain rfl : none = e := Win32.SubmitPc.returned.inj (hpc.symm.trans he)
      by_cases hp : p = .kernelCall
      · exact .inl ⟨congrArg some hp, hexits.lost hfail hpc⟩
      · exact absurd rfl (hkernel hp)
  | none =>
      refine .inr (hleft o ?_)
      have hregistered := hcounted.inserted (by rw [hpc]; rfl) hfail
      rw [Win32.PacketPhase.found_of_settled hheld hpassed] at hregistered
      have hcount := (hlinked.coherent o).tasks
      rw [hregistered] at hcount
      exact List.count_pos_iff.mp (hcount ▸ Nat.one_pos)

namespace Process

variable {n : ℕ} {p : Process n}

/-- No worker is in a callback any more. -/
theorem Closing.not_atCallback (h : p.Closing) (w : Fin n) (o : OpId) :
    p.atCallback w ≠ some o := by
  intro hw
  obtain ⟨sz, hw⟩ := pc_of_atCallback hw
  rw [h.exited] at hw
  cases hw

/-- **The program stays closing** when one operation moves on while nothing new is inserted. -/
theorem Closing.call {q : Process n} {o : OpId} {c : Win32.Call} (h : p.Closing)
    (hcoh : q.service.Coherent) (hmatched : q.Matched)
    (hlistening : q.server.listening = !q.server.lostAccept)
    (htable : q.server.connections = p.server.connections ∧ q.server.ledger = p.server.ledger)
    (hcallback : q.callback = p.callback ∧ q.returned = p.returned)
    (hout : q.service.runPc = .outside) (hworkers : q.service.workers = p.service.workers)
    (hcalls : q.service.calls = Function.update p.service.calls o c)
    (hsubset : ∀ o' ∈ q.service.currentTasks, o' ∈ p.service.currentTasks)
    (hleft : (p.service.calls o).Left → c.Left)
    (hfail : c.failPoint = (p.service.calls o).failPoint)
    (hlost : (p.service.calls o).lost = true → c.lost = true) : q.Closing := by
  have hleft' : ∀ {o'}, (p.service.calls o').Left → (q.service.calls o').Left := by
    intro o' ho'
    rw [hcalls]
    by_cases heq : o' = o
    · subst heq
      rw [Function.update_self]
      exact hleft ho'
    · rwa [Function.update_of_ne heq]
  refine ⟨hout, fun w => hworkers ▸ h.exited w, fun w => hworkers ▸ h.stored w,
    hcallback.2 ▸ h.returned, hlistening, hcoh, hmatched, fun c => ?_, ?_,
    fun o' ho' => hleft' (h.left o' (hsubset o' ho')), fun o' hgiven => ?_⟩
  · rw [HttpServer.SingleOwner, htable.1, htable.2]
    exact h.owned c
  · rw [htable.1, htable.2]
    exact h.entered
  · rw [hcallback.1] at hgiven
    refine (h.given o' hgiven).imp (fun hrefused => ?_) hleft'
    rw [hcalls]
    by_cases heq : o' = o
    · subst heq
      rw [Function.update_self, hfail]
      exact hrefused.imp_right hlost
    · rwa [Function.update_of_ne heq]

/-- A step of the service leaves the table alone. -/
theorem Closing.connections_follow {t : Win32.State n} {l : Win32.Label n} (h : p.Closing)
    (hgo : p.service.step l = some t) :
    (p.follow l t).server.connections = p.server.connections := by
  rcases (h.matched.follow h.coherent hgo).2 with hsame | ⟨cb, -, hlose⟩
  · rw [hsame]
  · rw [hlose]
    exact HttpServer.table_lose.1

/-- The program stays closing when the kernel answers, or the owner of a task drops it. -/
theorem Closing.outlives {t : Win32.State n} {l : Win32.Label n} (h : p.Closing)
    (hl : l.outlives = true) (hgo : p.service.step l = some t) :
    (p.follow l t).Closing ∧ t.currentTasks = p.service.currentTasks := by
  have hactive : ∀ w, (p.service.workers w).pc.active = false := fun w => by
    rw [h.exited]
    rfl
  have hout : t.runPc = .outside := by
    refine (Win32.State.rested_of_step hactive h.outside ?_ hgo).outside
    rintro rfl
    cases hl
  have hstep : Teardown.step false ⟨p.service, .done⟩ (.other l) = some ⟨t, .done⟩ := by
    simp [Teardown.step, hl, hgo]
  obtain ⟨-, -, hworkers, htasks, o, c, hc, hcalls⟩ :=
    Teardown.happens_of_step (fun w => .inl (h.exited w)) hstep
  dsimp only at hworkers htasks hc hcalls
  obtain ⟨hmatched, hserver⟩ := h.matched.follow h.coherent hgo
  refine ⟨h.call ((Win32.State.moves_of_step h.coherent hgo).coherent h.coherent) hmatched ?_ ?_
    ⟨rfl, rfl⟩ hout hworkers hcalls (fun o' ho' => htasks ▸ ho') (fun hleft => hleft.outlives hc)
    (by cases hc <;> rfl) fun hold => ?_, htasks⟩
  · rcases hserver with hsame | ⟨cb, -, hlose⟩
    · rw [hsame]
      exact h.listening
    · rw [hlose]
      rcases HttpServer.listening_lose with ⟨hlistens, hlost⟩ | ⟨hlistens, hlost⟩
      · rw [hlistens, hlost]
        exact h.listening
      · rw [hlistens, hlost]
        rfl
  · rcases hserver with hsame | ⟨cb, -, hlose⟩
    · rw [hsame]
      exact ⟨rfl, rfl⟩
    · rw [hlose]
      exact HttpServer.table_lose
  · have hself : c = t.calls o := by rw [hcalls, Function.update_self]
    rw [hself]
    rcases Win32.State.steps_of_step h.coherent hgo with heq | ⟨ev, hsteps, -⟩
    · exact heq ▸ hold
    · exact Win32.Call.lost_stays (h.coherent o).sound hold hsteps

/-- A task that is dropped from the set leaves the histories of the calls right. -/
theorem coherent_unregister {s : Win32.State n} {o : OpId} {rest : List OpId}
    (h : s.Coherent) (htasks : s.currentTasks = o :: rest) :
    (({ s with currentTasks := rest } : Win32.State n).setCall o
      (s.calls o).unregister).Coherent := by
  intro o'
  have hcount := (h o').tasks
  rw [htasks] at hcount
  by_cases heq : o' = o
  · subst heq
    have hs := (h o').sound
    refine (h o').of_call rfl ⟨hs.notIssued, hs.pending, fun hreg => absurd hreg Bool.false_ne_true,
      hs.found⟩ ?_ (h o').packets rfl fun _ => Iff.rfl
    rw [List.count_cons_self] at hcount
    have hle : (s.calls o').registered.toNat ≤ 1 := Bool.toNat_le _
    change rest.count o' = 0
    omega
  · rw [List.count_cons_of_ne (Ne.symm heq)] at hcount
    refine (h o').congr (Function.update_of_ne heq _ _) ?_ rfl fun _ _ => Iff.rfl
    exact hcount.trans (h o').tasks.symm

/-- `~Win32IOService` keeps the program closing when it drops a task. -/
theorem Closing.drop {o : OpId} {rest : List OpId} (h : p.Closing)
    (htasks : p.service.currentTasks = o :: rest) :
    ({ p with
      service := ({ p.service with currentTasks := rest } : Win32.State n).setCall o
        (p.service.calls o).unregister } : Process n).Closing := by
  have hregistered : (p.service.calls o).registered = true := by
    have hcount := (h.coherent o).tasks
    rw [htasks, List.count_cons_self] at hcount
    exact Bool.toNat_eq_one.mp (Nat.le_antisymm (Bool.toNat_le _) (hcount ▸ Nat.le_add_left _ _))
  have hexpected : ∀ t : Win32.State n, t = ({ p.service with currentTasks := rest } :
      Win32.State n).setCall o (p.service.calls o).unregister →
        ({ p with service := t } : Process n).expected = p.expected := by
    rintro t rfl
    refine funext fun o' => ?_
    have hlost : (Function.update p.service.calls o (p.service.calls o).unregister o').lost =
        (p.service.calls o').lost := by
      by_cases heq : o' = o
      · subst heq
        rw [Function.update_self]
        rfl
      · rw [Function.update_of_ne heq]
    simp only [expected, toCome, Win32.State.setCall, hlost]
  refine h.call (coherent_unregister h.coherent htasks) ⟨h.matched.sequential, ?_, ?_⟩ h.listening
    ⟨rfl, rfl⟩ ⟨rfl, rfl⟩ h.outside rfl rfl (fun o' ho' => htasks ▸ List.mem_cons_of_mem o ho')
    (fun hleft => hleft.unregister hregistered) rfl id
  · rw [hexpected _ rfl]
    exact h.matched.exclusive
  · rw [hexpected _ rfl]
    exact h.matched.awaited

/-- `~HttpServer` keeps the program closing when it destroys a connection. -/
theorem Closing.disconnect {c : ConnectionId} {rest : List ConnectionId} (h : p.Closing)
    (htable : p.server.connections = c :: rest) : (p.disconnect c rest).Closing := by
  have hmem : c ∈ p.server.connections := htable ▸ List.mem_cons_self
  have hledger : ∀ c', c' ≠ c →
      (p.disconnect c rest).server.ledger c' = p.server.ledger c' := by
    intro c' hne
    simp [Process.disconnect, HttpServer.destroyConnection, HttpServer.destroySocket,
      HttpServer.record, hne]
  have hself : (p.disconnect c rest).server.ledger c =
      { p.server.ledger c with
        connectionDestroyed := (p.server.ledger c).connectionDestroyed + 1
        socketDestroyed := (p.server.ledger c).socketDestroyed + 1 } := by
    simp [Process.disconnect, HttpServer.destroyConnection, HttpServer.destroySocket,
      HttpServer.record]
  have haccepted : ∀ c', ((p.disconnect c rest).server.ledger c').accepted =
      (p.server.ledger c').accepted := by
    intro c'
    by_cases heq : c' = c
    · subst heq
      rw [hself]
    · rw [hledger c' heq]
  refine ⟨h.outside, h.exited, h.stored, h.returned, h.listening, h.coherent,
    ⟨h.matched.sequential, h.matched.exclusive, h.matched.awaited⟩, fun c' hc' => ?_,
    fun c' hc' => ?_, h.left, h.given⟩
  · rw [haccepted] at hc'
    obtain ⟨hallocated, howned⟩ := h.owned c' hc'
    by_cases heq : c' = c
    · subst heq
      -- it was in the table, and is destroyed
      have hlive := howned.resolve_right fun hgone => hgone.1 hmem
      rw [htable, List.count_cons_self] at hlive
      have hnot : c' ∉ rest := List.count_eq_zero.mp (Nat.succ.inj hlive.1)
      rw [HttpServer.SingleOwner, hself]
      dsimp only
      refine ⟨hallocated, .inr ⟨hnot, ?_, ?_⟩⟩
      · rw [hlive.2.1, hallocated]
        rfl
      · rw [hlive.2.2]
    · rw [HttpServer.SingleOwner, hledger c' heq]
      rw [HttpServer.SingleOwner, htable, List.count_cons_of_ne (Ne.symm heq),
        List.mem_cons, or_iff_right heq] at howned
      exact ⟨hallocated, howned⟩
  · rw [haccepted]
    exact h.entered c' (htable ▸ List.mem_cons_of_mem c hc')

end Process

namespace Program

variable {n : ℕ} {env : Env} {assertions : Bool} {m m' : Program n}

/-- **The invariant** from the return of `run()` on. -/
structure Closes (m : Program n) : Prop where
  pc : m.pc.closing = true
  /-- No exception was stored that a destructor could not destroy. -/
  going : m.pc ≠ .destroying .ended
  process : m.process.Closing
  /-- `~HttpServer` has destroyed the table. -/
  emptied : ∀ pc, m.pc = .destroying pc → m.process.server.connections = []
  /-- `~Win32IOService` has dropped the tasks. -/
  dropped : m.pc = .destroying .done → m.process.service.currentTasks = []

/-- How many steps `main` has before it. -/
def rest (m : Program n) : ℕ :=
  match m.pc with
  | .releasing =>
      m.process.server.connections.length + n + m.process.service.currentTasks.length + 4
  | .disconnecting =>
      m.process.server.connections.length + n + m.process.service.currentTasks.length + 3
  | .destroying pc => Teardown.rest ⟨m.process.service, pc⟩
  | _ => 0

/-- `main` has one step for each connection, thread and task before it, and four more, at most. -/
theorem rest_le (m : Program n) : m.rest ≤ m.process.server.connections.length + n +
    m.process.service.currentTasks.length + 4 := by
  obtain ⟨p, pc, posts⟩ := m
  cases pc with
  | destroying pc => cases pc <;> (simp only [rest, Teardown.rest]; omega)
  | _ => simp only [rest]; omega

/-- **Nobody but the kernel** and the owners of tasks does anything. -/
theorem Closes.other_outlives {l : ProcessLabel n} (h : m.Closes)
    (hstep : m.step env assertions (.other l) = some m') : ∃ l' t, l'.outlives = true ∧
      m.process.service.step l' = some t ∧ m' = m.follow l' t := by
  obtain ⟨hallows, p, hp, rfl⟩ := other_of_step hstep
  cases Process.moves_of_step hp with
  | onAccepted hw hcb hnew hread hnext hne => exact absurd hw (h.process.not_atCallback _ _)
  | onStatusChanged hw hcb hnext hsize => exact absurd hw (h.process.not_atCallback _ _)
  | @service l t hgo hadmits =>
      refine ⟨l, t, ?_, hgo, rfl⟩
      cases l with
      | submit o choice =>
          refine decide_eq_true ((of_decide_eq_true hallows).resolve_right ?_)
          rintro (⟨-, haccepting⟩ | ⟨w, o', hw, -⟩)
          · have hpc := h.pc
            rw [haccepting] at hpc
            cases hpc
          · exact h.process.not_atCallback w o' hw
      | complete o sz | completeFailed o code | worker w choice => rfl
      | run choice =>
          obtain ⟨-, hrun⟩ := Option.ite_none_left_eq_some.mp hgo
          cases choice with
          | call => cases hallows
          | go | spurious =>
              simp only [Win32.State.runStep, Win32.State.runGo, h.process.outside] at hrun
              cases hrun

/-- **Every step** but those of `main` itself keeps the invariant, and leaves `main` as many. -/
theorem Closes.other {l : ProcessLabel n} (h : m.Closes)
    (hstep : m.step env assertions (.other l) = some m') : m'.Closes ∧ m'.rest = m.rest := by
  obtain ⟨l', t, hl', hgo, rfl⟩ := h.other_outlives hstep
  obtain ⟨hclosing, htasks⟩ := h.process.outlives hl' hgo
  have htable := h.process.connections_follow hgo
  have hservice : (m.process.follow l' t).service.currentTasks =
      m.process.service.currentTasks := htasks
  refine ⟨⟨h.pc, h.going, hclosing, fun pc hpc => htable.trans (h.emptied pc hpc),
    fun hpc => htasks.trans (h.dropped hpc)⟩, ?_⟩
  simp only [rest, follow, Teardown.rest, htable, hservice]

/-- The release of `acceptAsyncTask` leaves the operations that the server waits for. -/
theorem releaseAccept_closing {p : Process n} (h : p.Closing) :
    p.releaseAccept.Closing ∧
      p.releaseAccept.service.currentTasks = p.service.currentTasks ∧
      p.releaseAccept.server.connections = p.server.connections := by
  rw [Process.releaseAccept]
  cases hgo : p.service.step (.submit 0 .release) with
  | none => exact ⟨h, rfl, rfl⟩
  | some t =>
      obtain ⟨hclosing, htasks⟩ := h.outlives rfl hgo
      exact ⟨hclosing, htasks, h.connections_follow hgo⟩

/-- **A step of `main`** keeps the invariant, and leaves it one less. -/
theorem Closes.next (h : m.Closes) (hstep : m.next env assertions = some m') :
    m'.Closes ∧ m'.rest < m.rest := by
  obtain ⟨p, pc, posts⟩ := m
  have hclosing : p.Closing := h.process
  cases pc with
  | accepting | running | terminated => cases h.pc
  | releasing =>
      obtain rfl := Option.some.inj hstep
      obtain ⟨hreleased, htasks, htable⟩ := releaseAccept_closing hclosing
      refine ⟨⟨rfl, fun hpc => (by cases hpc), hreleased, fun pc hpc => (by cases hpc),
        fun hpc => (by cases hpc)⟩, ?_⟩
      simp only [rest, htasks, htable]
      omega
  | disconnecting =>
      simp only [Program.next] at hstep
      split at hstep
      · rename_i c rest htable
        obtain rfl := Option.some.inj hstep
        refine ⟨⟨rfl, fun hpc => (by cases hpc), hclosing.disconnect htable,
          fun pc hpc => (by cases hpc), fun hpc => (by cases hpc)⟩, ?_⟩
        simp [Program.rest, Process.disconnect, htable]
      · rename_i htable
        obtain rfl := Option.some.inj hstep
        refine ⟨⟨rfl, fun hpc => (by cases hpc), hclosing, fun _ _ => htable,
          fun hpc => (by cases hpc)⟩, ?_⟩
        simp [Program.rest, Teardown.rest, htable]
  | destroying pc =>
      obtain ⟨d, hd, rfl⟩ := Option.map_eq_some_iff.mp hstep
      have hempty : p.server.connections = [] := h.emptied pc rfl
      refine ⟨?_, Teardown.rest_lt_of_next hd⟩
      cases Teardown.goes_of_next hd with
      | join i hpc hw hstorage | joined hpc hall =>
          exact ⟨rfl, fun hpc => (by cases hpc), hclosing, fun _ _ => hempty,
            fun hpc => (by cases hpc)⟩
      | endProcess i hpc hw hstorage =>
          dsimp only at hstorage
          simp [hclosing.stored, ExceptionPointer.destructorReturns] at hstorage
      | drop hpc htasks =>
          have hpc' : pc = .releasing := hpc
          subst hpc'
          exact ⟨rfl, fun hpc => (by cases hpc), hclosing.drop htasks, fun _ _ => hempty,
            fun hdone => by cases hdone⟩
      | finish hpc htasks =>
          exact ⟨rfl, fun hpc => (by cases hpc), hclosing, fun _ _ => hempty, fun _ => htasks⟩

/-- `main` goes on until its end. -/
theorem Closes.exists_next (h : m.Closes) (hdone : m.pc ≠ .destroying .done) :
    ∃ m', m.next env assertions = some m' := by
  obtain ⟨p, pc, posts⟩ := m
  cases pc with
  | accepting | running | terminated => cases h.pc
  | releasing => exact ⟨_, rfl⟩
  | disconnecting =>
      rw [Program.next]
      cases p.server.connections <;> exact ⟨_, rfl⟩
  | destroying pc =>
      have hnot : pc ≠ .done := fun heq => hdone (congrArg MainPc.destroying heq)
      have hgoing : pc ≠ .ended := fun heq => h.going (congrArg MainPc.destroying heq)
      obtain ⟨d, hd⟩ := @Teardown.exists_next n assertions ⟨p.service, pc⟩ h.process.exited hnot
        hgoing
      exact ⟨_, Option.map_eq_some_iff.mpr ⟨d, hd, rfl⟩⟩

/-- **A step of `main`** before the end keeps the program serving: it calls `run()`, or
`run()` returns. -/
theorem Serving.next (h : m.Serving env) (hpc : m.pc.closing = false)
    (hstep : m.next env assertions = some m') :
    m'.pc.closing = false ∧ m'.Serving env ∨ m'.Closes := by
  obtain ⟨p, pc, posts⟩ := m
  cases pc with
  | accepting =>
      obtain ⟨hsubmitted, hgo⟩ := Option.ite_none_right_eq_some.mp hstep
      obtain ⟨q, hq, rfl⟩ := Option.map_eq_some_iff.mp hgo
      exact .inl ⟨rfl, h.call rfl hsubmitted hq⟩
  | running =>
      obtain ⟨⟨-, hout⟩, hgo⟩ := Option.ite_none_right_eq_some.mp hstep
      obtain ⟨e, hresult, rfl⟩ := Option.map_eq_some_iff.mp hgo
      cases e with
      | none =>
          exact .inr ⟨rfl, fun hpc => (by cases hpc), h.closing rfl hout hresult,
            fun pc hpc => (by cases hpc), fun hpc => (by cases hpc)⟩
      | some e =>
          refine .inl ⟨rfl, h.reachable, h.unrun, h.passed, h.raised, h.closed,
            fun o hfinished => ?_, h.given, fun hpc => (by cases hpc), fun hpc => (by cases hpc)⟩
          refine .inr ((h.attended o hfinished).resolve_left ?_)
          rintro ⟨-, haccepting⟩
          cases haccepting
  | terminated => cases hstep
  | releasing | disconnecting | destroying pc => cases hpc

/-- The program serves in every run until the destruction starts, and closes from there on. -/
theorem holds_of_run (h : (program n env assertions).Reachable m) :
    m.pc.closing = false ∧ m.Serving env ∨ m.Closes := by
  refine h.invariant (I := fun m => m.pc.closing = false ∧ m.Serving env ∨ m.Closes)
    (.inl ⟨rfl, serving_init n env assertions⟩) ?_
  rintro m l m' (⟨hpc, hserving⟩ | hcloses) hstep
  · cases l with
    | next => exact hserving.next hpc hstep
    | other l =>
        have hgo : m.step env assertions (.other l) = some m' := hstep
        refine .inl ⟨?_, hserving.other hgo⟩
        obtain ⟨-, p, -, rfl⟩ := other_of_step hgo
        exact hpc
  · cases l with
    | next => exact .inr (hcloses.next hstep).1
    | other l => exact .inr (@Closes.other n env assertions m m' l hcloses hstep).1

end Program

/-- **The steps before `main`** rank the states after `run()` has returned. -/
def programRank (n : ℕ) (env : Env) (assertions : Bool) :
    Machine.Ranking (program n env assertions) (fun _ _ => True) (fun l => l.isNext = true) where
  holds := Program.Closes
  rank := Program.rest
  holds_step := fun {m l m'} hm _ hstep => by
    cases l with
    | next => exact (@Program.Closes.next n env assertions m m' hm hstep).1
    | other l => exact (@Program.Closes.other n env assertions m m' l hm hstep).1
  rank_lt := fun {m l m'} hm _ hstep hl => by
    cases l with
    | next => exact (@Program.Closes.next n env assertions m m' hm hstep).2
    | other l => cases hl
  rank_le := fun {m l m'} hm _ hstep hl => by
    cases l with
    | next => exact absurd rfl hl
    | other l => exact (@Program.Closes.other n env assertions m m' l hm hstep).2.le

namespace Program

/-- **A task that is left behind** is alive, with its block and its callback; nobody but its block
holds it, and its caller, if it has not dropped it. -/
structure LeftBehind (c : Win32.Call) : Prop where
  destroyed : c.task.destroyed = 0
  refCount : c.task.refCount = 1 + c.callerRef.toNat
  overlapped : c.task.overlappedReleased = 0
  callback : c.task.callbackRefs = 1

/-- **How `main` ends** when `run()` has returned without an exception. -/
structure Ends {n : ℕ} (env : Env) (assertions : Bool) (m : Program n) : Prop where
  /-- No callback has returned an exception, and no thread is left to invoke one. -/
  returned : ∀ o e, m.process.returned o = some e → e = none
  exited : ∀ w, (m.process.service.workers w).pc = .exited
  /-- An accept is outstanding, unless it was lost. -/
  listening : m.process.server.listening = !m.process.server.lostAccept
  /-- Every connection that came in is in the table, once, or was destroyed once. -/
  owned : ∀ c, (m.process.server.ledger c).accepted = true → m.process.server.SingleOwner c
  /-- `main` can go on until its end, ... -/
  proceeds : m.pc ≠ .destroying .done → ∃ m', m.next env assertions = some m'
  /-- ... and takes so many steps at most, whatever the kernel does meanwhile. -/
  bounded : ∀ ls m', (program n env assertions).execWhere (fun _ _ => True) m ls = some m' →
    ls.countP (·.isNext) ≤ m.process.server.connections.length + n +
      m.process.service.currentTasks.length + 4
  /-- At its end every connection was destroyed once, and so was its socket. -/
  destroyed : m.pc = .destroying .done → ∀ c, (m.process.server.ledger c).accepted = true →
    (m.process.server.ledger c).connectionDestroyed = 1 ∧
      (m.process.server.ledger c).socketDestroyed = 1
  /-- Every task whose callback was never called is left behind then, but for those that the
  kernel refused. -/
  unrun : m.pc = .destroying .done → ∀ o, m.process.callback o ≠ none →
    (m.process.service.calls o).failPoint = some .kernelCall ∨
      LeftBehind (m.process.service.calls o)
  /-- So is what the server waits for: the accept, and with it the buffer of all reads, and one
  operation of every connection that is not through. -/
  left : m.pc = .destroying .done → ∀ party ∈ m.process.server.awaiting,
    ∃ o, Process.parties m.process.expected o = some party ∧
      LeftBehind (m.process.service.calls o)

end Program

/-- **How the program ends.** Whatever goes wrong in the callbacks, and whatever the kernel
answers: if `run()` returns no exception, then nothing has gone wrong in any of them, no thread
touches a connection any more, and the destructors return and destroy each connection once. -/
theorem main_closes {n : ℕ} {env : Env} {assertions : Bool} {m : Program n}
    (h : (program n env assertions).Reachable m) (hpc : m.pc.closing = true) :
    m.Ends env assertions := by
  have hcloses : m.Closes := by
    refine (Program.holds_of_run h).resolve_left fun hserving => ?_
    exact Bool.false_ne_true (hserving.1.symm.trans hpc)
  have hclosing := hcloses.process
  have hleft : m.pc = .destroying .done → ∀ o, (m.process.service.calls o).Left →
      Program.LeftBehind (m.process.service.calls o) := by
    intro hdone o hleft
    have hgone : (m.process.service.calls o).registered = false := by
      have hcount := (hclosing.coherent o).tasks
      rw [hcloses.dropped hdone, List.count_nil] at hcount
      exact Bool.toNat_eq_zero.mp hcount.symm
    refine ⟨hleft.alive, ?_, hleft.ledger.overlappedReleased, ?_⟩
    · rw [hleft.ledger.count, hleft.refs_eq, hgone]
      rfl
    · rw [hleft.ledger.callbackRefs, if_pos hleft.callback]
  refine ⟨hclosing.returned, hclosing.exited, hclosing.listening,
    fun c hc => (hclosing.owned c hc).2, hcloses.exists_next, fun ls m' hrun => ?_,
    fun hdone c hc => ?_,
    fun hdone o hgiven => (hclosing.given o hgiven).imp And.left (hleft hdone o),
    fun hdone party hparty => ?_⟩
  · have hcount := (programRank n env assertions).countP_le hrun hcloses
    simp only [Bool.decide_eq_true] at hcount
    have hrank : (programRank n env assertions).rank m ≤ _ := m.rest_le
    omega
  · obtain ⟨hallocated, howned⟩ := hclosing.owned c hc
    have hempty := hcloses.emptied _ hdone
    rcases howned with ⟨hcount, -⟩ | ⟨-, hconnection, hsocket⟩
    · rw [hempty] at hcount
      cases hcount
    · rw [hallocated] at hconnection
      exact ⟨hconnection, hsocket⟩
  · obtain ⟨o, ho, -⟩ := hclosing.matched.exclusive.owned party hparty
    refine ⟨o, ho, hleft hdone o ?_⟩
    obtain ⟨cb, hcb, -⟩ := Option.map_eq_some_iff.mp ho
    obtain ⟨hlost, hgiven⟩ := Process.of_expected hcb
    refine (hclosing.given o (hgiven ▸ Option.some_ne_none cb)).resolve_left ?_
    exact fun hrefused => Bool.false_ne_true (hlost.symm.trans hrefused.2)

/-! ### A concrete run -/

/-- A submit call in which nothing goes wrong. -/
def submitsOf {n : ℕ} (o : OpId) (kind : AsyncTaskType) : List (ProgramLabel n) :=
  (([.call kind false, .alloc true] ++ (if kind = .accept then [.alloc true] else []) ++
    [.alloc true, .issue .success, .alloc true, .alloc true, .go, .go, .go]) :
      List Win32.SubmitChoice).map fun choice => .other (.service (.submit o choice))

/-- A connection comes in, `run()` is woken, and `main` destroys the connection and returns. -/
theorem main_closes_accepted :
    ∃ m : Program 1, (m.pc = .destroying .done ∧ (m.process.server.ledger 0).accepted = true) ∧
      m.Ends .bare true := by
  obtain ⟨m, hrun, hend⟩ := Machine.exists_runWhere (M := program 1 .bare true)
    (G := fun _ _ => True) (s := (program 1 .bare true).init)
    (P := fun m => m.pc = .destroying .done ∧ (m.process.server.ledger 0).accepted = true)
    (submitsOf 0 .accept ++ [.next] ++
      (Win32.startUp.tail ++ (.complete 0 0 :: Win32.reachesCallback)).map (.other ∘ .service) ++
      [.other (.onAccepted 0 0 {} 1 2)] ++ submitsOf 1 .read ++ submitsOf 2 .accept ++
      [.worker 0 (.ret none), .worker 0 .go, .worker 0 .go, .run .spurious, .run .go, .run .go,
        .worker 0 .go, .run .go, .run .go, .run .go, .run .go].map (.other ∘ .service) ++
      List.replicate 9 .next) (by decide)
  exact ⟨m, hend, main_closes hrun (by rw [hend.1]; rfl)⟩

end Netknot.Http
