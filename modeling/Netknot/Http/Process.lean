import Netknot.Http.ConnectionTable
import Netknot.Lib.Ownership
import Netknot.Win32.Delivery
import Netknot.Win32.References

/-!
# The Server on the Service

The process of the example: an `HttpServer` whose socket calls are submit calls of a
`Win32IOService`, and whose callbacks are invoked by the workers of the service. The two models
meet at the callbacks. A submit call is given a callback; a worker that comes to the callback
of its task runs it, which does to the server what the callbacks of the server do, and posts
further submit calls; then the worker goes on with what the callback returned.

A callback does not touch its connection any more once the operation it posts is with the kernel,
so what it does to the server is one step, at some time between its invocation and its submit
calls. Which of its submissions return an exception is chosen there; these are given no callback,
and do not come to the insert in `currentTasks`. The submit calls are made at any time afterwards.
The buffer of the accept callback is shared by all connections, so the bytes a read finds are
chosen freely.

A submit call that returns no exception may still come to nothing, and the server is not told: then
the operation is lost to it at the step of the service that loses it.

No lock guards a connection, or the table of connections; any number of workers may run callbacks
at the same time. One that has posted already may be on its way back while another worker is in
the next callback of the same connection.

## Main results

* `Matched.follow`, `Linked.step`: every operation the server waits for is that of exactly one
  submit call, which is not lost.
* `process_refines`: every run of the process is a run of the server, as its connections see it,
  and a run of the service; and of the callbacks of one connection that the workers are in, or of
  the calls of `onAccepted`, at most one has not posted yet.
-/

namespace Netknot

namespace Http

open Win32 (OpId SubmitChoice)

/-- The callback a submit call is given. -/
inductive Callback
  /-- `HttpAcceptAsyncCallback`. -/
  | accept
  /-- The `HttpReadAsyncCallback` or the `HttpWriteAsyncCallback` of a connection. -/
  | operation (c : ConnectionId) (op : Op)
  deriving DecidableEq, Repr

/-- What the callback works on: a connection, or the listening socket. -/
def Callback.party : Callback → Option ConnectionId
  | .accept => none
  | .operation c _ => some c

/-- The function it is given to. -/
def Callback.kind : Callback → AsyncTaskType
  | .accept => .accept
  | .operation _ op => if op.isWrite then .write else .read

/-- The server and the service it runs on. -/
structure Process (n : ℕ) where
  service : Win32.State n
  server : HttpServer
  /-- The callback a submit call was given, until it has run. -/
  callback : OpId → Option Callback
  /-- What it returned. -/
  returned : OpId → Option ExceptionPointer

/-- What happens in the process. -/
inductive ProcessLabel (n : ℕ)
  /-- A step of the service, or of a submit call. -/
  | service (l : Win32.Label n)
  /-- Worker `w` runs `onAccepted` for the new socket `c`; `read` and `next` are the submit
  calls it makes. -/
  | onAccepted (w : Fin n) (c : ConnectionId) (ch : AcceptChoices) (read next : OpId)
  /-- Worker `w` runs `onStatusChanged`; `next` is the submit call it makes. -/
  | onStatusChanged (w : Fin n) (ch : Choices) (sv : Bytes) (next : OpId)

/-- What the callback of an operation returns; nothing when it ends the process. -/
def Operations.returns (s : Operations) (env : Env) (op : Op) (ch : Choices)
    (status : AsyncTaskStatus) (sv : Bytes) : ExceptionPointer :=
  if op.isWrite then (HttpWriteAsyncCallback.onStatusChanged status).getD none
  else
    match Trace.onStatusChanged ⟨s.reader, []⟩ env ch status sv with
    | .error _ => none
    | .ok (e, _) => e

/-- Nothing comes of the operation of a callback any more. -/
def HttpServer.lose (server : HttpServer) : Callback → HttpServer
  | .accept => server.loseAccept
  | .operation c op => server.setOperations c ((server.operations c).lose op)

/-- The callback of what is posted on connection `c`. -/
def Operations.posted (s : Operations) (c : ConnectionId) : Option Callback :=
  s.outstanding.head?.map (.operation c)

namespace Process

variable {n : ℕ}

/-- The task whose callback worker `w` is in. -/
def atCallback (p : Process n) (w : Fin n) : Option OpId :=
  match (p.service.workers w).pc with
  | .handling o _ .callback => some o
  | _ => none

/-- The submit call was not made yet, and belongs to nobody. -/
def Fresh (p : Process n) (o : OpId) : Prop :=
  (p.service.calls o).pc = .idle ∧ p.callback o = none ∧ p.returned o = none

instance (p : Process n) (o : OpId) : Decidable (p.Fresh o) :=
  inferInstanceAs (Decidable (_ ∧ _ ∧ _))

/-- A submit call is given a callback, if it is to return no exception. -/
def give (callback : OpId → Option Callback) (o : OpId) (cb : Option Callback) :
    OpId → Option Callback :=
  match cb with
  | none => callback
  | some cb => Function.update callback o (some cb)

/-- The submit call of `o` goes as it was chosen: given a callback it returns no exception,
and without one it does not come to the insert. It is a call of the function the callback is
given to. -/
def keeps (p : Process n) (o : OpId) (choice : SubmitChoice) (t : Win32.State n) : Bool :=
  match p.callback o with
  | none => !(t.calls o).pc.afterInsert || (p.service.calls o).pc.afterInsert
  | some cb =>
      !(t.calls o).pc.failed &&
        match choice with
        | .call kind _ => kind = cb.kind
        | _ => true

/-- The step of the service is one the server allows. While a callback runs, it may call `stop()`;
the worker goes on when it has run, with what it returned. -/
def admits (p : Process n) (t : Win32.State n) : Win32.Label n → Bool
  | .submit o choice => p.keeps o choice t
  | .worker w (.ret e) => (p.atCallback w).all fun o => p.returned o = some e
  | .worker w .stop => (p.atCallback w).all fun o => p.returned o = none
  | _ => true

/-- The callbacks that are still to come: of what the service has lost there is none. -/
def toCome (s : Win32.State n) (callback : OpId → Option Callback) : OpId → Option Callback :=
  fun o => if (s.calls o).lost then none else callback o

/-- The callback of a submit call, while it is still to come. -/
def expected (p : Process n) : OpId → Option Callback := toCome p.service p.callback

/-- The service goes on to `t`. What it loses by that is lost to the server. -/
def follow (p : Process n) (l : Win32.Label n) (t : Win32.State n) : Process n :=
  { p with
    service := t
    server :=
      match p.service.eventOf l with
      | none => p.server
      | some (o, _) =>
          if (t.calls o).lost then (p.expected o).elim p.server p.server.lose else p.server }

/-- The process has not ended. -/
def running (p : Process n) : Bool := p.service.aborted.isNone && !p.server.terminated

/-- `onAccepted`, as the callback of task `o`: the read it posts is the submit call `read`, and
the accept `next`. -/
def accepted (p : Process n) (o : OpId) (c : ConnectionId) (ch : AcceptChoices)
    (read next : OpId) : Process n :=
  let (e, server) := p.server.onAccepted c ch
  { p with
    server := server
    callback := give (give (Function.update p.callback o none) read
      ((server.operations c).posted c)) next (if server.listening then some .accept else none)
    returned := Function.update p.returned o (some e) }

/-- `onStatusChanged`, as the callback of task `o`, which is operation `op` of connection `c`: what
it posts is the submit call `next`. -/
def statusChanged (env : Env) (p : Process n) (o : OpId) (c : ConnectionId) (op : Op)
    (ch : Choices) (sv : Bytes) (next : OpId) : Process n :=
  let s := (p.server.operations c).complete op sv
  let status := (p.service.calls o).task.status
  let s' := s.callback env op ch status sv
  { p with
    server := p.server.setOperations c s'
    callback := give (Function.update p.callback o none) next (s'.posted c)
    returned := Function.update p.returned o (some (s.returns env op ch status sv)) }

/-- One step. -/
def step (env : Env) (p : Process n) (l : ProcessLabel n) : Option (Process n) :=
  if !p.running then none
  else
    match l with
    | .service l =>
        (p.service.step l).bind fun t =>
          if p.admits t l then some (p.follow l t) else none
    | .onAccepted w c ch read next =>
        (p.atCallback w).bind fun o =>
          if p.callback o = some .accept ∧ (p.server.ledger c).accepted = false ∧
              p.Fresh read ∧ p.Fresh next ∧ read ≠ next then
            some (p.accepted o c ch read next)
          else none
    | .onStatusChanged w ch sv next =>
        (p.atCallback w).bind fun o =>
          match p.callback o with
          | some (.operation c op) =>
              -- a read finds as many bytes as the task has counted
              if p.Fresh next ∧
                  (op.isWrite = true ∨ sv.length = (p.service.calls o).task.szOperated) then
                some (p.statusChanged env o c op ch sv next)
              else none
          | _ => none

end Process

/-- The process as a machine: `main` has called `acceptAsync`. -/
def process (n : ℕ) (env : Env) : Machine (Process n) (ProcessLabel n) where
  init :=
    { service := (Win32.service n).init
      server := (httpServer env).init
      callback := Function.update (fun _ => none) 0 (some .accept)
      returned := fun _ => none }
  step := Process.step env

/-! ### What the server waits for -/

/-- The parties of which an operation is outstanding. -/
def HttpServer.awaiting (server : HttpServer) : Set (Option ConnectionId) :=
  { party | match party with
    | none => server.listening = true
    | some c => (server.operations c).outstanding ≠ [] }

/-- The server waits for the operation of this callback. -/
def HttpServer.Awaits (server : HttpServer) : Callback → Prop
  | .accept => server.listening = true
  | .operation c op => op ∈ (server.operations c).outstanding

/-- What the server waits for on a connection is seen from the connection. -/
theorem HttpServer.mem_awaiting_congr {server server' : HttpServer} {c : ConnectionId}
    (h : server'.operations c = server.operations c) :
    some c ∈ server'.awaiting ↔ some c ∈ server.awaiting := by
  change (server'.operations c).outstanding ≠ [] ↔ (server.operations c).outstanding ≠ []
  rw [h]

/-- Whether a server waits for the callback of an operation depends on the operations of its
connection only. -/
theorem HttpServer.awaits_congr {server server' : HttpServer} {c : ConnectionId} {op : Op}
    (h : server'.operations c = server.operations c) :
    server'.Awaits (.operation c op) ↔ server.Awaits (.operation c op) := by
  rw [Awaits, Awaits, h]

/-- The loss of an operation, as a step of the server. -/
def Callback.loss : Callback → HttpLabel
  | .accept => .loseAccept
  | .operation c op => .lose c op

namespace HttpServer

section

variable {env : Env} {server : HttpServer} {cb cb' : Callback}

/-- The operations of a connection of which none is lost stay as they are. -/
theorem operations_lose_of_ne {c : ConnectionId} (hne : some c ≠ cb.party) :
    (server.lose cb).operations c = server.operations c := by
  cases cb with
  | accept => rfl
  | operation c' op =>
      have hc : c ≠ c' := fun heq => hne (congrArg some heq)
      simp [lose, hc]

/-- What is lost has not completed. -/
theorem completed_lose (c : ConnectionId) :
    ((server.lose cb).operations c).completed = (server.operations c).completed := by
  cases cb with
  | accept => rfl
  | operation c' op =>
      by_cases hc : c = c'
      · subst hc
        simp [lose, Operations.lose]
      · simp [lose, hc]

/-- A loss adds nothing to the log of a connection. -/
theorem log_lose (c : ConnectionId) :
    ((server.lose cb).operations c).log = (server.operations c).log := by
  cases cb with
  | accept => rfl
  | operation c' op =>
      by_cases hc : c = c'
      · subst hc
        simp [lose, Operations.lose]
      · simp [lose, hc]

/-- What is outstanding behind a loss was so before. -/
theorem outstanding_lose {c : ConnectionId} {op : Op}
    (h : op ∈ ((server.lose cb).operations c).outstanding) :
    op ∈ (server.operations c).outstanding := by
  cases cb with
  | accept => exact h
  | operation c' op' =>
      rw [lose, setOperations_operations] at h
      split at h
      · subst c
        exact List.mem_of_mem_erase h
      · exact h

/-- A loss leaves the table and the ledger alone. -/
theorem table_lose :
    (server.lose cb).connections = server.connections ∧
      (server.lose cb).ledger = server.ledger := by
  cases cb with
  | accept | operation c op => exact ⟨rfl, rfl⟩

/-- The server listens until the accept is lost. -/
theorem listening_lose : (server.lose cb).listening = server.listening ∧
      (server.lose cb).lostAccept = server.lostAccept ∨
    (server.lose cb).listening = false ∧ (server.lose cb).lostAccept = true := by
  cases cb with
  | accept => exact .inr ⟨rfl, rfl⟩
  | operation c op => exact .inl ⟨rfl, rfl⟩

/-- The connections go on as before. -/
theorem sequential_lose (hs : ∀ c, Sequential (server.operations c)) (h : server.Awaits cb)
    (c : ConnectionId) : Sequential ((server.lose cb).operations c) := by
  cases cb with
  | accept => exact hs c
  | operation c' op =>
      by_cases hc : c = c'
      · subst hc
        simpa [lose] using (hs c).lose h
      · simpa [lose, hc] using hs c

/-- **The server does not wait any more** for an operation that is lost. -/
theorem awaiting_lose (hs : ∀ c, Sequential (server.operations c)) (h : server.Awaits cb) :
    (server.lose cb).awaiting = server.awaiting \ {cb.party} := by
  ext party
  by_cases hparty : party = cb.party
  · subst hparty
    refine iff_of_false (fun hmem => ?_) fun hmem => hmem.2 rfl
    cases cb with
    | accept => cases hmem
    | operation c op =>
        obtain ⟨hout, -⟩ := (hs c).only h
        exact hmem (by simp [lose, Operations.lose, hout])
  · refine Iff.trans ?_ (and_iff_left hparty).symm
    cases party with
    | none =>
        cases cb with
        | accept => exact absurd rfl hparty
        | operation c op => exact Iff.rfl
    | some c => exact mem_awaiting_congr (operations_lose_of_ne hparty)

/-- A server that has lost one callback still waits for those of the other parties. -/
theorem Awaits.lose (h : server.Awaits cb') (hne : cb'.party ≠ cb.party) :
    (server.lose cb).Awaits cb' := by
  cases cb' with
  | accept =>
      cases cb with
      | accept => exact absurd rfl hne
      | operation c op => exact h
  | operation c op => exact (awaits_congr (operations_lose_of_ne hne)).mpr h

/-- **The loss** of an operation the server waits for is a step of the server. -/
theorem step_lose (hrecorded : Recorded server) (hrunning : server.terminated = false)
    (h : server.Awaits cb) : (httpServer env).step server cb.loss = some (server.lose cb) := by
  cases cb with
  | accept =>
      have hlistening : server.listening = true := h
      simp [httpServer, HttpServer.step, Callback.loss, lose, hrunning, hlistening]
  | operation c op =>
      have hop : op ∈ (server.operations c).outstanding := h
      have hgoing : (server.operations c).terminated = false :=
        Bool.eq_false_iff.mpr fun hc => Bool.false_ne_true (hrunning.symm.trans
          (hrecorded.running c hc))
      simp [httpServer, HttpServer.step, Operations.step, Callback.loss, lose, hrunning, hgoing,
        hop]

end

end HttpServer

namespace Process

variable {n : ℕ}

/-- Which submit call is that of which party. -/
def parties (callback : OpId → Option Callback) : OpId → Option (Option ConnectionId) :=
  Option.map Callback.party ∘ callback

/-- **What the server waits for** is what is still to come, and each operation is that of exactly
one submit call. -/
structure Matched (p : Process n) : Prop where
  sequential : ∀ c, Sequential (p.server.operations c)
  exclusive : Ownership.Exclusive p.server.awaiting (parties p.expected)
  awaited : ∀ o cb, p.expected o = some cb → p.server.Awaits cb

/-- **The server and the service fit together**: the server waits for what is still to come, and a
task in `currentTasks` has a callback. -/
structure Linked (p : Process n) : Prop where
  coherent : p.service.Coherent
  recorded : p.server.Recorded
  exclusive : Ownership.Exclusive p.server.awaiting (parties p.expected)
  awaited : ∀ o cb, p.expected o = some cb → p.server.Awaits cb
  idle : ∀ c, (p.server.operations c).completed = []
  given : ∀ o, (p.service.calls o).pc.afterInsert = true →
    p.callback o ≠ none ∨ p.returned o ≠ none

/-- What the server waits for and what is still to come are the same, of both together. -/
theorem Linked.matched {p : Process n} (h : p.Linked) : p.Matched :=
  ⟨h.recorded.sequential, h.exclusive, h.awaited⟩

/-! ### Giving callbacks -/

section

variable {callback : OpId → Option Callback} {o o' : OpId} {cb cb' : Callback}
  {posted : Option Callback}

/-- The other submit calls keep theirs. -/
theorem give_of_ne (h : o' ≠ o) : give callback o posted o' = callback o' := by
  cases posted with
  | none => rfl
  | some cb => exact Function.update_of_ne h _ _

/-- A callback that is given is the new one, or was given before. -/
theorem of_give (h : give callback o posted o' = some cb') :
    o' = o ∧ posted = some cb' ∨ callback o' = some cb' := by
  by_cases heq : o' = o
  · subst heq
    cases posted with
    | none => exact .inr h
    | some cb =>
        rw [give, Function.update_self] at h
        exact .inl ⟨rfl, h⟩
  · rw [give_of_ne heq] at h
    exact .inr h

/-- What was given stays given. -/
theorem give_ne_none (h : callback o' ≠ none) : give callback o posted o' ≠ none := by
  by_cases heq : o' = o
  · subst heq
    cases posted with
    | none => exact h
    | some cb =>
        rw [give, Function.update_self]
        exact Option.some_ne_none cb
  · rw [give_of_ne heq]
    exact h

/-- A callback that has run is gone, and the others are left. -/
theorem of_update (h : Function.update callback o none o' = some cb') :
    o' ≠ o ∧ callback o' = some cb' := by
  by_cases heq : o' = o
  · subst heq
    rw [Function.update_self] at h
    cases h
  · rw [Function.update_of_ne heq] at h
    exact ⟨heq, h⟩

/-- Ownership stays exclusive when a callback has run, which was that of its party. -/
theorem exclusive_run {used : Set (Option ConnectionId)}
    (h : Ownership.Exclusive used (parties callback)) (ho : callback o = some cb) :
    Ownership.Exclusive (used \ {cb.party}) (parties (Function.update callback o none)) := by
  have hparty : parties callback o = some cb.party := by
    rw [parties, Function.comp_apply, ho, Option.map_some]
  rw [parties, Function.comp_update]
  exact h.release hparty

/-- Ownership stays exclusive when a callback is given, which is that of its party. -/
theorem exclusive_give {used : Set (Option ConnectionId)}
    (h : Ownership.Exclusive used (parties callback)) (ho : callback o = none)
    (posted : Option Callback) (hposted : ∀ cb, posted = some cb → cb.party ∉ used) :
    Ownership.Exclusive { party | party ∈ used ∨ ∃ cb, posted = some cb ∧ cb.party = party }
      (parties (give callback o posted)) := by
  cases posted with
  | none => simpa [give] using h
  | some cb =>
      have hnone : parties callback o = none := by
        rw [parties, Function.comp_apply, ho, Option.map_none]
      have hacquire := h.acquire (hposted cb rfl) hnone
      have hset : { party | party ∈ used ∨ ∃ cb', some cb = some cb' ∧ cb'.party = party } =
          insert cb.party used := by
        ext party
        simp [or_comm, eq_comm]
      rw [hset, give, parties, Function.comp_update]
      exact hacquire

/-- A callback that has run is not to come. -/
theorem toCome_update {s : Win32.State n} :
    toCome s (Function.update callback o none) = Function.update (toCome s callback) o none := by
  funext o'
  by_cases heq : o' = o
  · subst heq
    simp [toCome]
  · simp [toCome, heq]

/-- What a submit call is given that has lost nothing is to come. -/
theorem toCome_give {s : Win32.State n} (ho : (s.calls o).lost = false) :
    toCome s (give callback o posted) = give (toCome s callback) o posted := by
  cases posted with
  | none => rfl
  | some cb =>
      funext o'
      by_cases heq : o' = o
      · subst heq
        simp [toCome, give, ho]
      · simp [toCome, give, heq]

/-- What is to come was given. -/
theorem of_expected {p : Process n} (h : p.expected o = some cb) :
    (p.service.calls o).lost = false ∧ p.callback o = some cb := by
  rw [expected, toCome] at h
  split at h
  · cases h
  · exact ⟨Bool.eq_false_iff.mpr ‹_›, h⟩

/-- What was given is to come if it was not lost. -/
theorem expected_of_not_lost {p : Process n} (h : (p.service.calls o).lost = false) :
    p.expected o = p.callback o := by
  rw [expected, toCome, h]
  rfl

end

/-! ### The service -/

/-- The other steps of the service leave a submit call where it is. -/
theorem pc_of_step {s t : Win32.State n} {l : Win32.Label n} {o : OpId} (hcoh : s.Coherent)
    (hstep : s.step l = some t) (hl : ∀ choice, l ≠ .submit o choice) :
    (t.calls o).pc = (s.calls o).pc := by
  rcases Win32.State.steps_of_step hcoh hstep with hsame | ⟨ev, hsteps, hsubmit⟩
  · rw [hsame]
  · exact (Win32.Call.packetFrame_of_steps hsteps fun choice hev =>
      hl choice (hsubmit choice hev)).pc

/-- A worker in the callback of a task has its packet in hand. -/
theorem op?_of_atCallback {p : Process n} {w : Fin n} {o : OpId} (hw : p.atCallback w = some o) :
    (p.service.workers w).pc.op? = some (o, .callback) := by
  rw [atCallback] at hw
  split at hw
  · rename_i o' sz hpc
    rw [hpc, ← Option.some.inj hw]
    rfl
  · cases hw

/-- A worker in the callback of a task was handed it behind the insert. -/
theorem afterInsert_of_atCallback {p : Process n} (hcoh : p.service.Coherent) {w : Fin n}
    {o : OpId} (hw : p.atCallback w = some o) : (p.service.calls o).pc.afterInsert = true := by
  have hcall := hcoh o
  refine hcall.sound.found ?_
  rw [hcall.held w .callback (op?_of_atCallback hw)]
  rfl

/-- A worker in the callback of a task has not lost it. -/
theorem not_lost_of_atCallback {p : Process n} (hcoh : p.service.Coherent) {w : Fin n} {o : OpId}
    (hw : p.atCallback w = some o) : (p.service.calls o).lost = false := by
  have hp := (hcoh o).held w .callback (op?_of_atCallback hw)
  rw [Win32.Call.lost, hp]
  rfl

/-- A submit call that was not made has lost nothing, and nothing is to come of it. -/
theorem Fresh.not_lost {p : Process n} (hcoh : p.service.Coherent) {o : OpId} (h : p.Fresh o) :
    (p.service.calls o).lost = false ∧ p.expected o = none := by
  have hlost := Win32.Call.not_lost_of_idle h.1 (hcoh o).sound
  exact ⟨hlost, (expected_of_not_lost hlost).trans h.2.1⟩

/-- **What the service loses** in a step: nothing, or one operation, which was still to come. -/
theorem follow_cases {p : Process n} {l : Win32.Label n} {t : Win32.State n}
    (hcoh : p.service.Coherent) (hstep : p.service.step l = some t) :
    (p.follow l t).server = p.server ∧ (p.follow l t).expected = p.expected ∨
      ∃ o cb, p.expected o = some cb ∧ (p.follow l t).server = p.server.lose cb ∧
        (p.follow l t).expected = Function.update p.expected o none := by
  have hmoves := (Win32.State.moves_of_step hcoh hstep).calls
  have hsame : ∀ {o}, t.calls o = p.service.calls o →
      (p.follow l t).expected o = p.expected o := fun heq => by
    simp only [expected, toCome, follow, heq]
  cases hev : p.service.eventOf l with
  | none =>
      refine .inl ⟨by simp only [follow, hev], funext fun o => hsame ?_⟩
      refine (hmoves o).resolve_right fun ⟨ev, heq, _⟩ => ?_
      rw [hev] at heq
      cases heq
  | some x =>
      obtain ⟨o, ev⟩ := x
      have hother : ∀ {o'}, o' ≠ o → (p.follow l t).expected o' = p.expected o' := by
        intro o' hne
        refine hsame ((hmoves o').resolve_right fun ⟨ev', heq, _⟩ => hne ?_)
        exact (Prod.mk.inj (Option.some.inj (heq.symm.trans hev))).1
      have hserver : (p.follow l t).server =
          if (t.calls o).lost then (p.expected o).elim p.server p.server.lose else p.server := by
        simp only [follow, hev]
      have hself : (p.follow l t).expected o =
          if (t.calls o).lost then none else p.callback o := rfl
      by_cases hlost : (t.calls o).lost = true
      · rw [if_pos hlost] at hserver hself
        have hexpected : (p.follow l t).expected = Function.update p.expected o none := by
          refine funext fun o' => ?_
          by_cases heq : o' = o
          · subst heq
            rw [hself, Function.update_self]
          · rw [hother heq, Function.update_of_ne heq]
        cases hcb : p.expected o with
        | none =>
            rw [hcb] at hserver
            rw [← hcb, Function.update_eq_self] at hexpected
            exact .inl ⟨hserver, hexpected⟩
        | some cb =>
            rw [hcb] at hserver
            exact .inr ⟨o, cb, hcb, hserver, hexpected⟩
      · rw [if_neg hlost] at hserver hself
        have hbefore : (p.service.calls o).lost = false := by
          rw [Bool.eq_false_iff]
          refine fun hold => hlost ?_
          rcases Win32.State.steps_of_step hcoh hstep with heq | ⟨ev, hsteps, -⟩
          · exact heq ▸ hold
          · exact Win32.Call.lost_stays (hcoh o).sound hold hsteps
        refine .inl ⟨hserver, funext fun o' => ?_⟩
        by_cases heq : o' = o
        · subst heq
          rw [hself, expected_of_not_lost hbefore]
        · exact hother heq

/-- Of one party there is one callback to come. -/
theorem Matched.party_ne {p : Process n} (h : p.Matched) {o o' : OpId} {cb cb' : Callback}
    (hne : o' ≠ o) (hcb : p.expected o = some cb) (hcb' : p.expected o' = some cb') :
    cb'.party ≠ cb.party := by
  intro hparty
  have hheld : ∀ {o cb}, p.expected o = some cb → parties p.expected o = some cb.party := by
    intro o cb hcb
    rw [parties, Function.comp_apply, hcb, Option.map_some]
  exact hne (h.exclusive.held_unique ((hheld hcb').trans (congrArg some hparty)) (hheld hcb))

/-- **A step of the service** keeps what the server waits for and what is still to come together,
and is a step of the server if it loses an operation. -/
theorem Matched.follow {p : Process n} {l : Win32.Label n} {t : Win32.State n} (h : p.Matched)
    (hcoh : p.service.Coherent) (hstep : p.service.step l = some t) :
    (p.follow l t).Matched ∧ ((p.follow l t).server = p.server ∨
      ∃ cb, p.server.Awaits cb ∧ (p.follow l t).server = p.server.lose cb) := by
  rcases follow_cases hcoh hstep with ⟨hserver, hexpected⟩ | ⟨o, cb, hcb, hserver, hexpected⟩
  · refine ⟨⟨?_, ?_, ?_⟩, .inl hserver⟩
    · rw [hserver]
      exact h.sequential
    · rw [hserver, hexpected]
      exact h.exclusive
    · rw [hserver, hexpected]
      exact h.awaited
  · have hawaits : p.server.Awaits cb := h.awaited o cb hcb
    refine ⟨⟨fun c => ?_, ?_, fun o' cb' ho' => ?_⟩, .inr ⟨cb, hawaits, hserver⟩⟩
    · rw [hserver]
      exact HttpServer.sequential_lose h.sequential hawaits c
    · rw [hserver, hexpected, HttpServer.awaiting_lose h.sequential hawaits]
      exact exclusive_run h.exclusive hcb
    · rw [hexpected] at ho'
      obtain ⟨hne, hcb'⟩ := of_update ho'
      rw [hserver]
      exact (h.awaited o' cb' hcb').lose (h.party_ne hne hcb hcb')

/-- **A step of the service** is a run of the server, and keeps the two together. -/
theorem Linked.service {env : Env} {p : Process n} {l : Win32.Label n} {t : Win32.State n}
    (h : p.Linked) (hrunning : p.server.terminated = false) (hstep : p.service.step l = some t)
    (hadmits : p.admits t l = true) :
    (httpServer env).RunWhere (fun _ _ => True) p.server (p.follow l t).server ∧
      (p.follow l t).Linked := by
  obtain ⟨hmatched, hserver⟩ := h.matched.follow h.coherent hstep
  have hrun : (httpServer env).RunWhere (fun _ _ => True) p.server (p.follow l t).server := by
    rcases hserver with hsame | ⟨cb, hawaits, hlose⟩
    · rw [hsame]
      exact .refl
    · rw [hlose]
      exact .single trivial (HttpServer.step_lose h.recorded hrunning hawaits)
  have hrecorded := hrun.invariant h.recorded fun _ _ _ hrec _ hgo => hrec.step hgo
  refine ⟨hrun, (Win32.State.moves_of_step h.coherent hstep).coherent h.coherent, hrecorded,
    hmatched.exclusive, hmatched.awaited, fun c => ?_, fun o ho => ?_⟩
  · rcases hserver with hsame | ⟨cb, -, hlose⟩
    · rw [hsame]
      exact h.idle c
    · rw [hlose, HttpServer.completed_lose]
      exact h.idle c
  · by_cases hl : ∃ choice, l = .submit o choice
    · obtain ⟨choice, rfl⟩ := hl
      rw [admits, keeps] at hadmits
      cases hcb : p.callback o with
      | some cb => exact .inl fun hnone => Option.some_ne_none cb (hcb.symm.trans hnone)
      | none =>
          rw [hcb] at hadmits
          refine .inr ((h.given o ?_).resolve_left fun hne => hne hcb)
          rcases Bool.or_eq_true_iff.mp hadmits with hnot | hbefore
          · have ho' : (t.calls o).pc.afterInsert = true := ho
            rw [ho'] at hnot
            exact absurd hnot Bool.false_ne_true
          · exact hbefore
    · have hsame := pc_of_step h.coherent hstep fun choice heq => hl ⟨choice, heq⟩
      have ho' : (t.calls o).pc.afterInsert = true := ho
      exact h.given o (hsame ▸ ho')

/-! ### The callbacks -/

/-- A callback that a worker is in, and that has not run, is the one its task was given. -/
theorem Linked.exists_callback {p : Process n} (h : p.Linked) {w : Fin n} {o : OpId}
    (hw : p.atCallback w = some o) (hrun : p.returned o = none) :
    ∃ cb, p.callback o = some cb ∧ p.server.Awaits cb := by
  have hgiven := h.given o (afterInsert_of_atCallback h.coherent hw)
  obtain ⟨cb, hcb⟩ := Option.ne_none_iff_exists'.mp (hgiven.resolve_right fun hne => hne hrun)
  have hexpected := (expected_of_not_lost (not_lost_of_atCallback h.coherent hw)).trans hcb
  exact ⟨cb, hcb, h.awaited o cb hexpected⟩

/-- The tasks that have been in the callback keep it, or have run it. -/
theorem Linked.given_of {p : Process n} (h : p.Linked) {callback : OpId → Option Callback}
    {o : OpId} {e : ExceptionPointer}
    (hkept : ∀ o', o' ≠ o → p.callback o' ≠ none → callback o' ≠ none) (o' : OpId)
    (ho' : (p.service.calls o').pc.afterInsert = true) :
    callback o' ≠ none ∨ Function.update p.returned o (some e) o' ≠ none := by
  by_cases heq : o' = o
  · refine .inr ?_
    rw [heq, Function.update_self]
    exact Option.some_ne_none e
  · rw [Function.update_of_ne heq]
    exact (h.given o' ho').imp_left (hkept o' heq)

/-- Nothing that `onAccepted` posts has completed. -/
theorem completed_onAccepted {server : HttpServer} (h : server.Recorded) {c : ConnectionId}
    {ch : AcceptChoices} (hnew : (server.ledger c).accepted = false) :
    ((server.onAccepted c ch).2.operations c).completed = [] := by
  obtain ⟨-, hdone, -⟩ := (h.sequential c).fresh (h.not_accepted hnew)
  rw [onAccepted_operations]
  split
  · rw [Function.update_self]
    exact hdone
  · exact hdone

section

variable {env : Env} {p : Process n} {o : OpId} {c : ConnectionId}

/-- What is posted on a connection is a callback of its party. -/
theorem of_posted {s : Operations} {cb : Callback} (h : s.posted c = some cb) :
    ∃ op, cb = .operation c op ∧ op ∈ s.outstanding := by
  obtain ⟨op, hop, rfl⟩ := Option.map_eq_some_iff.mp h
  exact ⟨op, rfl, List.mem_of_head? hop⟩

/-- A callback is posted for this party if and only if the party is the connection and anything is
outstanding on it. -/
theorem exists_posted_iff {s : Operations} {party : Option ConnectionId} :
    (∃ cb : Callback, s.posted c = some cb ∧ cb.party = party) ↔
      party = some c ∧ s.outstanding ≠ [] := by
  rw [Operations.posted]
  cases hout : s.outstanding with
  | nil => simp
  | cons op rest => simp [Callback.party, eq_comm]

/-- When `onAccepted` has run, its own callback is not to come any more, and those it
posted are. -/
theorem Linked.expected_accepted (h : p.Linked) {ch : AcceptChoices} {read next : OpId}
    (hread : p.Fresh read) (hnext : p.Fresh next) :
    (p.accepted o c ch read next).expected =
      give (give (Function.update p.expected o none) read
        (((p.server.onAccepted c ch).2.operations c).posted c)) next
          (if (p.server.onAccepted c ch).2.listening then some .accept else none) := by
  refine (toCome_give (hnext.not_lost h.coherent).1).trans ?_
  rw [toCome_give (hread.not_lost h.coherent).1, toCome_update]
  rfl

/-- When `onStatusChanged` has run, its own callback is not to come any more, and the one it
posted is. -/
theorem Linked.expected_statusChanged (h : p.Linked) {op : Op} {ch : Choices} {sv : Bytes}
    {next : OpId} (hnext : p.Fresh next) :
    (p.statusChanged env o c op ch sv next).expected =
      give (Function.update p.expected o none) next
        (((p.statusChanged env o c op ch sv next).server.operations c).posted c) := by
  refine (toCome_give (hnext.not_lost h.coherent).1).trans ?_
  rw [toCome_update]
  simp [statusChanged, expected]

/-- **The submit calls of `onAccepted`** are those of what the server waits for then. -/
theorem Linked.exclusive_accepted (h : p.Linked) {ch : AcceptChoices} {read next : OpId}
    (hcb : p.expected o = some .accept) (hnew : (p.server.ledger c).accepted = false)
    (hfresh : p.Fresh read) (hfresh' : p.Fresh next) (hne : read ≠ next) :
    Ownership.Exclusive (p.accepted o c ch read next).server.awaiting
      (parties (p.accepted o c ch read next).expected) := by
  obtain ⟨hout, -, -⟩ := (h.recorded.sequential c).fresh (h.recorded.not_accepted hnew)
  have hread := (hfresh.not_lost h.coherent).2
  have hnext := (hfresh'.not_lost h.coherent).2
  have hother : ∀ {o'}, p.expected o' = none → o' ≠ o := by
    rintro o' ho' rfl
    rw [hcb] at ho'
    cases ho'
  rw [h.expected_accepted hfresh hfresh']
  -- the accept is over, the read is posted, and then the next accept
  have hover := exclusive_run h.exclusive hcb
  have hposted := exclusive_give hover ((Function.update_of_ne (hother hread) _ _).trans hread)
    (((p.server.onAccepted c ch).2.operations c).posted c) fun cb hcb' hmem => by
      obtain ⟨op, rfl, -⟩ := of_posted hcb'
      exact hmem.1 hout
  have hrearmed := exclusive_give hposted
    ((give_of_ne hne.symm).trans ((Function.update_of_ne (hother hnext) _ _).trans hnext))
    (if (p.server.onAccepted c ch).2.listening then some .accept else none) fun cb hcb' hmem => by
      obtain ⟨-, rfl⟩ := Option.ite_none_right_eq_some.mp hcb' |>.imp_right Option.some.inj
      rcases hmem with ⟨-, hne⟩ | hmem
      · exact hne rfl
      · obtain ⟨hparty, -⟩ := exists_posted_iff.mp hmem
        cases hparty
  refine (congrArg (Ownership.Exclusive · _) ?_).mp hrearmed
  ext party
  cases party with
  | none =>
      constructor
      · rintro ((⟨-, hne⟩ | hmem) | ⟨cb, hcb', -⟩)
        · exact absurd rfl hne
        · cases (exists_posted_iff.mp hmem).1
        · exact (Option.ite_none_right_eq_some.mp hcb').1
      · exact fun hlistening => .inr ⟨.accept, if_pos hlistening, rfl⟩
  | some c' =>
      by_cases heq : c' = c
      · subst heq
        constructor
        · rintro ((⟨hmem, -⟩ | hmem) | ⟨cb, hcb', hparty⟩)
          · exact absurd hout hmem
          · exact (exists_posted_iff.mp hmem).2
          · obtain ⟨-, rfl⟩ := Option.ite_none_right_eq_some.mp hcb' |>.imp_right Option.some.inj
            cases hparty
        · exact fun hmem => .inl (.inr (exists_posted_iff.mpr ⟨rfl, hmem⟩))
      · have hsame := (@onAccepted_of_ne p.server c ch c' heq).2.1
        constructor
        · rintro ((⟨hmem, -⟩ | hmem) | ⟨cb, hcb', hparty⟩)
          · exact (HttpServer.mem_awaiting_congr hsame).mpr hmem
          · exact absurd (Option.some.inj (exists_posted_iff.mp hmem).1) heq
          · obtain ⟨-, rfl⟩ := Option.ite_none_right_eq_some.mp hcb' |>.imp_right Option.some.inj
            cases hparty
        · intro hmem
          refine .inl (.inl ⟨(HttpServer.mem_awaiting_congr hsame).mp hmem, ?_⟩)
          rintro ⟨⟩

/-- **`onAccepted`** is a step of the server, and keeps the two together. -/
theorem Linked.accepted (h : p.Linked) {ch : AcceptChoices} {read next : OpId}
    (hrunning : p.server.terminated = false) (hcb : p.expected o = some .accept)
    (hnew : (p.server.ledger c).accepted = false) (hread : p.Fresh read)
    (hnext : p.Fresh next) (hne : read ≠ next) :
    (httpServer env).step p.server (.accept c ch) = some (p.accepted o c ch read next).server ∧
      (p.accepted o c ch read next).Linked := by
  have hlistening : p.server.listening = true := h.awaited o _ hcb
  have hstep : (httpServer env).step p.server (.accept c ch) =
      some (p.server.onAccepted c ch).2 := by
    simp [httpServer, HttpServer.step, hrunning, hlistening, hnew]
  have hothers := fun c' hc' => (@onAccepted_of_ne p.server c ch c' hc').2.1
  obtain ⟨hout, -, -⟩ := (h.recorded.sequential c).fresh (h.recorded.not_accepted hnew)
  have hrecorded : (p.accepted o c ch read next).server.Recorded :=
    @HttpServer.Recorded.step env p.server _ (.accept c ch) h.recorded hstep
  refine ⟨hstep, h.coherent, hrecorded, h.exclusive_accepted hcb hnew hread hnext hne,
    fun o' cb' ho' => ?_, fun c' => ?_, h.given_of fun o' ho' hgiven => ?_⟩
  · rw [h.expected_accepted hread hnext] at ho'
    rcases of_give ho' with ⟨-, hposted⟩ | ho'
    · obtain ⟨hlistening', rfl⟩ := Option.ite_none_right_eq_some.mp hposted
        |>.imp_right Option.some.inj
      exact hlistening'
    · rcases of_give ho' with ⟨-, hposted⟩ | ho'
      · obtain ⟨op, rfl, hop⟩ := of_posted hposted
        exact hop
      · obtain ⟨hoo', hcb'⟩ := of_update ho'
        have hparty := h.matched.party_ne hoo' hcb hcb'
        have hawaits := h.awaited o' cb' hcb'
        cases cb' with
        | accept => exact absurd rfl hparty
        | operation c' op' =>
            have hc' : c' ≠ c := by
              rintro rfl
              rw [HttpServer.Awaits, hout] at hawaits
              cases hawaits
            exact (HttpServer.awaits_congr (hothers c' hc')).mpr hawaits
  · by_cases hc' : c' = c
    · subst hc'
      exact completed_onAccepted h.recorded hnew
    · exact (hothers c' hc').symm ▸ h.idle c'
  · refine give_ne_none (give_ne_none ?_)
    rw [Function.update_of_ne ho']
    exact hgiven

/-- A completion, and the callback of it: nothing else is on the way on this connection. -/
theorem Linked.completes (h : p.Linked) {op : Op} {sv : Bytes} {status : AsyncTaskStatus}
    {ch : Choices} (hrunning : p.server.terminated = false)
    (hcb : p.expected o = some (.operation c op)) :
    (httpServer env).RunWhere (fun _ _ => True) p.server (p.server.setOperations c
        (((p.server.operations c).complete op sv).callback env op ch status sv)) ∧
      (((p.server.operations c).complete op sv).callback env op ch status sv).completed = [] := by
  have hop : op ∈ (p.server.operations c).outstanding := h.awaited o _ hcb
  have hgoing : (p.server.operations c).terminated = false := by
    refine Bool.eq_false_iff.mpr fun hend => ?_
    exact Bool.false_ne_true (hrunning.symm.trans (h.recorded.running c hend))
  have hmem : op ∈ ((p.server.operations c).complete op sv).completed :=
    List.mem_append_right _ (List.mem_singleton_self op)
  have hcomplete : (httpServer env).step p.server (.complete c op sv) =
      some (p.server.setOperations c ((p.server.operations c).complete op sv)) := by
    simp [httpServer, HttpServer.step, Operations.step, hrunning, hgoing, hop]
  have hcallback : (httpServer env).step
      (p.server.setOperations c ((p.server.operations c).complete op sv))
      (.callback c op ch status sv) = some (p.server.setOperations c
        (((p.server.operations c).complete op sv).callback env op ch status sv)) := by
    have hgoing' : ((p.server.operations c).complete op sv).terminated = false := hgoing
    simp [httpServer, HttpServer.step, Operations.step, HttpServer.setOperations, hrunning,
      hgoing', hmem]
  refine ⟨.tail (.single trivial hcomplete) trivial hcallback, ?_⟩
  obtain ⟨-, hdone⟩ := ((h.recorded.sequential c).complete hop sv).alone hmem
  have herase : ((p.server.operations c).complete op sv).completed.erase op = [] := by
    rw [hdone, List.erase_cons_head]
  rcases callback_cases ((p.server.operations c).complete op sv) env op ch status sv with
    ⟨s', rfl, heq | heq⟩ | ⟨-, reader, actions, view, result, -, heq⟩ <;> rw [heq] <;> exact herase

/-- **The submit call of `onStatusChanged`** is that of what is outstanding then. -/
theorem Linked.exclusive_statusChanged (h : p.Linked) {op : Op} {ch : Choices} {sv : Bytes}
    {next : OpId} (hcb : p.expected o = some (.operation c op)) (hfresh : p.Fresh next) :
    Ownership.Exclusive (p.statusChanged env o c op ch sv next).server.awaiting
      (parties (p.statusChanged env o c op ch sv next).expected) := by
  have hnext := (hfresh.not_lost h.coherent).2
  have hne : next ≠ o := by
    rintro rfl
    rw [hcb] at hnext
    cases hnext
  have hover := exclusive_run h.exclusive hcb
  have hposted := exclusive_give hover ((Function.update_of_ne hne _ _).trans hnext)
    (((p.statusChanged env o c op ch sv next).server.operations c).posted c) fun cb hcb' hmem => by
      obtain ⟨op', rfl, -⟩ := of_posted hcb'
      exact hmem.2 rfl
  rw [h.expected_statusChanged hfresh]
  refine (congrArg (Ownership.Exclusive · _) ?_).mp hposted
  ext party
  cases party with
  | none =>
      constructor
      · rintro (⟨hlistening, -⟩ | hmem)
        · exact hlistening
        · cases (exists_posted_iff.mp hmem).1
      · intro hlistening
        refine .inl ⟨hlistening, ?_⟩
        rintro ⟨⟩
  | some c' =>
      by_cases heq : c' = c
      · subst heq
        constructor
        · rintro (⟨-, hself⟩ | hmem)
          · exact absurd rfl hself
          · exact (exists_posted_iff.mp hmem).2
        · exact fun hmem => .inr (exists_posted_iff.mpr ⟨rfl, hmem⟩)
      · have hsame : (p.statusChanged env o c op ch sv next).server.operations c' =
            p.server.operations c' := by
          simp [statusChanged, heq]
        constructor
        · rintro (⟨hmem, -⟩ | hmem)
          · exact (HttpServer.mem_awaiting_congr hsame).mpr hmem
          · exact absurd (Option.some.inj (exists_posted_iff.mp hmem).1) heq
        · intro hmem
          refine .inl ⟨(HttpServer.mem_awaiting_congr hsame).mp hmem, ?_⟩
          rintro hc'
          exact heq (Option.some.inj hc')

/-- **`onStatusChanged`** is a completion and its callback, and keeps the two together. -/
theorem Linked.statusChanged (h : p.Linked) {op : Op} {ch : Choices} {sv : Bytes} {next : OpId}
    (hrunning : p.server.terminated = false) (hcb : p.expected o = some (.operation c op))
    (hnext : p.Fresh next) :
    (httpServer env).RunWhere (fun _ _ => True) p.server
        (p.statusChanged env o c op ch sv next).server ∧
      (p.statusChanged env o c op ch sv next).Linked := by
  obtain ⟨hrun, hdone⟩ := @Linked.completes n env p o c h op sv
    (p.service.calls o).task.status ch hrunning hcb
  have hrecorded := hrun.invariant h.recorded fun _ _ _ hrec _ hstep => hrec.step hstep
  have hexclusive := @Linked.exclusive_statusChanged n env p o c h op ch sv next hcb hnext
  refine ⟨hrun, h.coherent, hrecorded, hexclusive, fun o' cb' ho' => ?_, fun c' => ?_,
    h.given_of fun o' ho' hgiven => ?_⟩
  · rw [h.expected_statusChanged hnext] at ho'
    rcases of_give ho' with ⟨-, hposted⟩ | ho'
    · obtain ⟨op', rfl, hop'⟩ := of_posted hposted
      simpa [HttpServer.Awaits, Process.statusChanged] using hop'
    · obtain ⟨hoo', hcb'⟩ := of_update ho'
      have hparty := h.matched.party_ne hoo' hcb hcb'
      have hawaits := h.awaited o' cb' hcb'
      cases cb' with
      | accept => exact hawaits
      | operation c' op' =>
          have hc' : c' ≠ c := fun heq => hparty (congrArg some heq)
          have hsame : (p.statusChanged env o c op ch sv next).server.operations c' =
              p.server.operations c' := by
            simp [Process.statusChanged, hc']
          exact (HttpServer.awaits_congr hsame).mpr hawaits
  · by_cases hc' : c' = c
    · subst hc'
      simpa [Process.statusChanged] using hdone
    · simpa [Process.statusChanged, hc'] using h.idle c'
  · refine give_ne_none ?_
    rw [Function.update_of_ne ho']
    exact hgiven

end

/-! ### Steps -/

/-- **What a step does** to the process, one case per label. -/
inductive Moves (env : Env) (p : Process n) : ProcessLabel n → Process n → Prop
  | service {l : Win32.Label n} {t : Win32.State n} (hstep : p.service.step l = some t)
      (hadmits : p.admits t l = true) : Moves env p (.service l) (p.follow l t)
  | onAccepted {w : Fin n} {o : OpId} {c : ConnectionId} {ch : AcceptChoices} {read next : OpId}
      (hw : p.atCallback w = some o) (hcb : p.callback o = some .accept)
      (hnew : (p.server.ledger c).accepted = false) (hread : p.Fresh read)
      (hnext : p.Fresh next) (hne : read ≠ next) :
      Moves env p (.onAccepted w c ch read next) (p.accepted o c ch read next)
  | onStatusChanged {w : Fin n} {o : OpId} {c : ConnectionId} {op : Op} {ch : Choices}
      {sv : Bytes} {next : OpId} (hw : p.atCallback w = some o)
      (hcb : p.callback o = some (.operation c op)) (hnext : p.Fresh next)
      (hsize : op.isWrite = true ∨ sv.length = (p.service.calls o).task.szOperated) :
      Moves env p (.onStatusChanged w ch sv next) (p.statusChanged env o c op ch sv next)

/-- No step is made after the end of the process. -/
theorem running_of_step {env : Env} {p q : Process n} {l : ProcessLabel n}
    (h : p.step env l = some q) : p.running = true := by
  rw [Process.step.eq_def] at h
  split at h
  · cases h
  · simpa using ‹¬(!p.running) = true›

/-- The server has not ended it, either. -/
theorem server_running_of_step {env : Env} {p q : Process n} {l : ProcessLabel n}
    (h : p.step env l = some q) : p.server.terminated = false := by
  have hboth := running_of_step h
  rw [running, Bool.and_eq_true_iff] at hboth
  simpa using hboth.2

/-- The inversion of a step: it makes one of the moves. -/
theorem moves_of_step {env : Env} {p q : Process n} {l : ProcessLabel n}
    (h : p.step env l = some q) : p.Moves env l q := by
  rw [Process.step.eq_def] at h
  split at h
  · cases h
  · cases l with
    | service l =>
        obtain ⟨t, hstep, ht⟩ := Option.bind_eq_some_iff.mp h
        obtain ⟨hadmits, rfl⟩ := Option.ite_none_right_eq_some.mp ht |>.imp_right Option.some.inj
        exact .service hstep hadmits
    | onAccepted w c ch read next =>
        obtain ⟨o, hw, ho⟩ := Option.bind_eq_some_iff.mp h
        obtain ⟨⟨hcb, hnew, hread, hnext, hne⟩, rfl⟩ :=
          Option.ite_none_right_eq_some.mp ho |>.imp_right Option.some.inj
        exact .onAccepted hw hcb hnew hread hnext hne
    | onStatusChanged w ch sv next =>
        obtain ⟨o, hw, ho⟩ := Option.bind_eq_some_iff.mp h
        split at ho
        · rename_i c op hcb
          obtain ⟨⟨hnext, hsize⟩, rfl⟩ :=
            Option.ite_none_right_eq_some.mp ho |>.imp_right Option.some.inj
          exact .onStatusChanged hw hcb hnext hsize
        · cases ho

/-- A worker in a callback that has not run is in one that is to come. -/
theorem Linked.expected_of_atCallback {p : Process n} (h : p.Linked) {w : Fin n} {o : OpId}
    {cb : Callback} (hw : p.atCallback w = some o) (hcb : p.callback o = some cb) :
    p.expected o = some cb :=
  (expected_of_not_lost (not_lost_of_atCallback h.coherent hw)).trans hcb

/-- **A step of the process** is a run of the server and a run of the service, and keeps the
two together. -/
theorem Linked.step {env : Env} {p q : Process n} {l : ProcessLabel n} (h : p.Linked)
    (hstep : p.step env l = some q) :
    q.Linked ∧ (httpServer env).RunWhere (fun _ _ => True) p.server q.server ∧
      (Win32.service n).RunWhere (fun _ _ => True) p.service q.service := by
  have hrunning := server_running_of_step hstep
  cases moves_of_step hstep with
  | service hgo hadmits =>
      obtain ⟨hserver, hlinked⟩ := @Linked.service n env p _ _ h hrunning hgo hadmits
      exact ⟨hlinked, hserver, .single trivial hgo⟩
  | @onAccepted w o c ch read next hw hcb hnew hread hnext hne =>
      obtain ⟨hserver, hlinked⟩ := @Linked.accepted n env p o c h ch read next hrunning
        (h.expected_of_atCallback hw hcb) hnew hread hnext hne
      exact ⟨hlinked, .single trivial hserver, .refl⟩
  | onStatusChanged hw hcb hnext hsize =>
      obtain ⟨hserver, hlinked⟩ :=
        h.statusChanged hrunning (h.expected_of_atCallback hw hcb) hnext
      exact ⟨hlinked, hserver, .refl⟩

/-- **The server runs on the service**: what holds in every state of the process. -/
structure Refines (env : Env) (p : Process n) : Prop where
  /-- The service runs as a service. -/
  service : (Win32.service n).Reachable p.service
  /-- The server runs as a server, whatever the workers do at the same time. -/
  server : (httpServer env).Reachable p.server
  /-- Every operation the server waits for is that of one submit call, which is not lost, and no
  other submit call has a callback to come. -/
  exclusive : Ownership.Exclusive p.server.awaiting (parties p.expected)
  /-- A callback is invoked for an operation the server waits for. -/
  expected : ∀ w o, p.atCallback w = some o → p.returned o = none →
    ∃ cb, p.callback o = some cb ∧ p.server.Awaits cb
  /-- It can be run, with any new submit calls. -/
  runs : p.running = true → ∀ w o, p.atCallback w = some o → p.returned o = none →
    ∀ c read next, (p.server.ledger c).accepted = false → p.Fresh read → p.Fresh next →
      read ≠ next → ∃ l q, p.step env l = some q ∧ q.returned o ≠ none
  /-- Of the workers in callbacks of one connection, or in `onAccepted`, one at most has not posted
  what the callback posts. -/
  alone : ∀ w w' o o' cb cb', p.atCallback w = some o → p.atCallback w' = some o' →
    p.callback o = some cb → p.callback o' = some cb' → cb.party = cb'.party → w = w'

/-- The parts of the process fit together at the start, where the server waits for the
`acceptAsync` of `main`. -/
theorem linked_init (n : ℕ) (env : Env) : (process n env).init.Linked := by
  have hexpected : (process n env).init.expected = (process n env).init.callback :=
    funext fun _ => expected_of_not_lost rfl
  refine ⟨Win32.State.coherent_init n, @HttpServer.recorded_of_run env _ .refl, ?_,
    fun o cb ho => ?_, fun _ => rfl, fun o ho => absurd ho Bool.false_ne_true⟩
  · have hempty : Ownership.Exclusive (∅ : Set (Option ConnectionId)) fun _ : OpId => none :=
      Ownership.exclusive_empty
    have hacquire := hempty.acquire (o := 0) (Set.notMem_empty none) rfl
    have hset : (process n env).init.server.awaiting = insert none ∅ := by
      ext party
      cases party with
      | none => exact iff_of_true rfl (Set.mem_insert none ∅)
      | some c =>
          refine iff_of_false (fun hmem => hmem rfl) ?_
          rintro (⟨⟨⟩⟩ | hmem)
          exact Set.notMem_empty _ hmem
    have howns : parties (process n env).init.callback =
        Function.update (fun _ : OpId => none) 0 (some none) := Function.comp_update _ _ _ _
    rw [hset, hexpected, howns]
    exact hacquire
  · rw [hexpected] at ho
    by_cases heq : o = 0
    · subst heq
      obtain rfl : Callback.accept = cb := Option.some.inj ho
      exact (rfl : (process n env).init.server.listening = true)
    · have hnone : (process n env).init.callback o = none := by
        exact Function.update_of_ne heq (some Callback.accept) fun _ => none
      rw [hnone] at ho
      cases ho

/-- A worker in a callback can run it. -/
theorem Linked.exists_step {env : Env} {p : Process n} (h : p.Linked) (hrunning : p.running = true)
    {w : Fin n} {o : OpId} (hw : p.atCallback w = some o) (hrun : p.returned o = none)
    {c : ConnectionId} {read next : OpId} (hnew : (p.server.ledger c).accepted = false)
    (hread : p.Fresh read) (hnext : p.Fresh next) (hne : read ≠ next) :
    ∃ l q, p.step env l = some q ∧ q.returned o ≠ none := by
  obtain ⟨cb, hcb, -⟩ := h.exists_callback hw hrun
  cases cb with
  | accept =>
      refine ⟨.onAccepted w c {} read next, p.accepted o c {} read next, ?_, ?_⟩
      · simp [Process.step, hrunning, hw, hcb, hnew, hread, hnext, hne]
      · simp [Process.accepted]
  | operation c' op =>
      let sv : Bytes := List.replicate (p.service.calls o).task.szOperated 0
      refine ⟨.onStatusChanged w .succeed sv next,
        p.statusChanged env o c' op .succeed sv next, ?_, ?_⟩
      · simp [Process.step, hrunning, hw, hcb, hnext, sv]
      · simp [Process.statusChanged]

/-- The two runs, and what fits together in them, are what `process_refines` says of
the process. -/
theorem Linked.refines {env : Env} {p : Process n} (h : p.Linked)
    (hservice : (Win32.service n).Reachable p.service)
    (hserver : (httpServer env).Reachable p.server) : p.Refines env where
  service := hservice
  server := hserver
  exclusive := h.exclusive
  expected := fun w o hw hrun => h.exists_callback hw hrun
  runs := fun hrunning w o hw hrun c read next hnew hread hnext hne =>
    h.exists_step hrunning hw hrun hnew hread hnext hne
  alone := fun w w' o o' cb cb' hw hw' hcb hcb' hparty => by
    have ho : o = o' := by
      by_contra hne
      exact h.matched.party_ne (Ne.symm hne) (h.expected_of_atCallback hw hcb)
        (h.expected_of_atCallback hw' hcb') hparty.symm
    subst ho
    exact (h.coherent o).unique w w' .callback .callback (op?_of_atCallback hw)
      (op?_of_atCallback hw')

end Process

/-- **In every run** of the process its parts run by themselves, and fit together. -/
theorem Process.linked_of_run {n : ℕ} {env : Env} {p : Process n}
    (h : (process n env).Reachable p) :
    p.Linked ∧ (Win32.service n).Reachable p.service ∧ (httpServer env).Reachable p.server := by
  have hservice : (Win32.service n).Reachable (process n env).init.service := .refl
  have hserver : (httpServer env).Reachable (process n env).init.server := .refl
  refine h.invariant (I := fun p => p.Linked ∧ (Win32.service n).Reachable p.service ∧
    (httpServer env).Reachable p.server) ⟨Process.linked_init n env, hservice, hserver⟩ ?_
  rintro p l q ⟨hlinked, hservice, hserver⟩ hstep
  obtain ⟨hlinked', hserver', hservice'⟩ := hlinked.step hstep
  exact ⟨hlinked', hservice.trans hservice', hserver.trans hserver'⟩

/-- **Every run of the process is a run of its parts.** The server is never called out of turn,
however the workers of the service interleave: what holds in every run of the server by itself
holds of it there. -/
theorem process_refines {n : ℕ} {env : Env} {p : Process n} (h : (process n env).Reachable p) :
    p.Refines env := by
  obtain ⟨hlinked, hservice, hserver⟩ := Process.linked_of_run h
  exact hlinked.refines hservice hserver

/-! ### A concrete run -/

/-- One worker: `main` submits the accept, and `run()` goes to sleep. -/
def startsListening : List (ProcessLabel 1) :=
  (([.submit 0 (.call .accept false), .submit 0 (.alloc true), .submit 0 (.alloc true),
    .submit 0 (.alloc true), .submit 0 (.issue .success)] : List (Win32.Label 1)) ++
    Win32.submitUpToInsert ++ Win32.submitUpToReturn ++ Win32.startUp).map .service

/-- When a connection comes in, the worker runs `onAccepted`, which posts a read of connection 0
and the next accept. -/
theorem process_refines_accepted :
    ∃ p : Process 1, (p.server.connections = [0] ∧ p.callback 1 = some (.operation 0 .read) ∧
      p.callback 2 = some .accept) ∧ p.Refines .bare := by
  obtain ⟨p, hrun, hp⟩ := Machine.exists_runWhere (M := process 1 .bare) (G := fun _ _ => True)
    (s := (process 1 .bare).init)
    (P := fun p => p.server.connections = [0] ∧ p.callback 1 = some (.operation 0 .read) ∧
      p.callback 2 = some .accept)
    (startsListening ++ ((.complete 0 0 :: Win32.reachesCallback).map .service ++
      [.onAccepted 0 0 {} 1 2])) (by decide)
  exact ⟨p, hp, process_refines hrun⟩

end Http

end Netknot
