import Netknot.Http.Fragmentation
import Netknot.Http.Operations

/-!
# The Connections of the Server

`onAccepted` and the table `HttpServer::connections`, with the callbacks of all connections in
any order. Three pointers own what was accepted at some time in `onAccepted`: the locals `s` and
`conn`, and the entry of the table, which is built from the same raw pointer as `conn`. What
they destroy is counted in a ledger; an entry that is left behind does not go away with it.

Nothing takes an entry out of the table, so the only connections that are in it rightly are
those something still happens to. An operation that was posted may be lost in the service, and so
may the `acceptAsync` that is outstanding; then no callback comes, and nobody here is told.

## Main results

* `onAccepted_ledger`, `onAccepted_connections`, `onAccepted_operations`: what `onAccepted`
  does, at all its exits.
* `operations_of_run`: every connection of the server runs as a connection by itself.
* `single_owner_iff`: at which exits what was accepted has one owner, or none and is destroyed
  once.
* `only_live_iff`: how long the table holds live connections only.
-/

namespace Netknot.Http

/-- The number of an accepted socket, and of the `Connection` made for it. -/
abbrev ConnectionId := ℕ

/-- What has become of an accepted socket and of its `Connection`. -/
structure Ledger where
  accepted : Bool := false
  /-- The `Connection` was allocated. -/
  allocated : Bool := false
  /-- How often the `Connection` was destroyed. -/
  connectionDestroyed : ℕ := 0
  /-- How often the `Socket` was destroyed. -/
  socketDestroyed : ℕ := 0
  deriving DecidableEq, Repr

/-- The part of an `HttpServer` its connections are in. -/
structure HttpServer where
  connections : List ConnectionId := []
  /-- An `acceptAsync` is outstanding. -/
  listening : Bool := true
  /-- History: the one that was is lost. -/
  lostAccept : Bool := false
  /-- What is under way on the socket of a connection. -/
  operations : ConnectionId → Operations := fun _ => {}
  ledger : ConnectionId → Ledger := fun _ => {}
  /-- The process has ended. -/
  terminated : Bool := false

/-- What can go wrong in `onAccepted`. -/
structure AcceptChoices where
  /-- The `Connection` finds memory. -/
  connection : Bool := true
  /-- `connections.insert` succeeds. -/
  inserted : Bool := true
  /-- The `HttpReadAsyncCallback` finds memory. -/
  callback : Bool := true
  /-- What `readAsync` returns. -/
  submit : ExceptionPointer := none
  /-- What the `acceptAsync` for the next connection returns. -/
  rearm : ExceptionPointer := none

/-- Which local variables of `onAccepted` own something. -/
structure Owners where
  s : Bool
  conn : Bool

namespace HttpServer

/-- An entry of the ledger changes. -/
def record (server : HttpServer) (c : ConnectionId) (entry : Ledger) : HttpServer :=
  { server with ledger := Function.update server.ledger c entry }

/-- The `acceptAsync` has completed with the socket `c`. -/
def arrive (server : HttpServer) (c : ConnectionId) : HttpServer :=
  { server with listening := false }.record c { accepted := true }

/-- The `acceptAsync` that is outstanding is lost: `onAccepted` is never called. -/
def loseAccept (server : HttpServer) : HttpServer :=
  { server with listening := false, lostAccept := true }

/-- `Connection::alloc`. -/
def allocate (server : HttpServer) (c : ConnectionId) : HttpServer :=
  server.record c { server.ledger c with allocated := true }

/-- The `Socket` is destroyed. -/
def destroySocket (server : HttpServer) (c : ConnectionId) : HttpServer :=
  server.record c
    { server.ledger c with socketDestroyed := (server.ledger c).socketDestroyed + 1 }

/-- `Connection::dealloc`: the member `socket` destroys the `Socket`. -/
def destroyConnection (server : HttpServer) (c : ConnectionId) : HttpServer :=
  (server.record c { server.ledger c with
    connectionDestroyed := (server.ledger c).connectionDestroyed + 1 }).destroySocket c

/-- The end of the scope: the locals destroy what they own, the last first. -/
def leave (server : HttpServer) (c : ConnectionId) (owners : Owners) : HttpServer :=
  let server := if owners.conn then server.destroyConnection c else server
  if owners.s then server.destroySocket c else server

/-- `HttpServer::addConnection`: the element is built from the raw pointer, and an element that
is not inserted destroys what it owns. -/
def addConnection (server : HttpServer) (c : ConnectionId) (inserted : Bool) :
    Bool × HttpServer :=
  if inserted then (true, { server with connections := c :: server.connections })
  else (false, server.destroyConnection c)

/-- The operations of a connection move on. -/
def setOperations (server : HttpServer) (c : ConnectionId) (s : Operations) : HttpServer :=
  { server with
    operations := Function.update server.operations c s
    terminated := server.terminated || s.terminated }

@[simp] theorem setOperations_operations (server : HttpServer) (c c' : ConnectionId)
    (s : Operations) : (server.setOperations c s).operations c' =
      if c' = c then s else server.operations c' := Function.update_apply _ _ _ _

/-- `HttpAcceptAsyncCallback::onAccepted`. -/
def onAccepted (server : HttpServer) (c : ConnectionId) (ch : AcceptChoices) :
    ExceptionPointer × HttpServer :=
  let server := server.arrive c
  if !ch.connection then
    (some .outOfMemory, server.leave c { s := true, conn := false })
  else
    let server := server.allocate c
    -- `s.release()`
    match server.addConnection c ch.inserted with
    | (false, server) => (some .outOfMemory, server.leave c { s := false, conn := true })
    | (true, server) =>
        if !ch.callback then
          (some .outOfMemory, server.leave c { s := false, conn := true })
        else
          let server := server.setOperations c ((server.operations c).accept ch.submit)
          match ch.submit with
          | some e => (some e, server.leave c { s := false, conn := true })
          | none =>
              -- `conn.release()`
              (ch.rearm, { server with listening := ch.rearm.isNone }.leave c
                { s := false, conn := false })

end HttpServer

/-- What happens to the server. -/
inductive HttpLabel
  /-- `onAccepted`, for a new socket. -/
  | accept (c : ConnectionId) (ch : AcceptChoices)
  /-- An operation of a connection completes. -/
  | complete (c : ConnectionId) (op : Op) (bytes : Bytes)
  /-- An operation of a connection is lost. -/
  | lose (c : ConnectionId) (op : Op)
  /-- The `acceptAsync` that is outstanding is lost. -/
  | loseAccept
  /-- The callback of an operation that completed. -/
  | callback (c : ConnectionId) (op : Op) (ch : Choices) (status : AsyncTaskStatus) (sv : Bytes)

namespace HttpServer

/-- One step; nothing moves after `std::terminate`. -/
def step (env : Env) (server : HttpServer) (l : HttpLabel) : Option HttpServer :=
  if server.terminated then none
  else
    match l with
    | .accept c ch =>
        if server.listening && !(server.ledger c).accepted then some (server.onAccepted c ch).2
        else none
    | .complete c op bytes =>
        ((server.operations c).step env (.complete op bytes)).map (server.setOperations c)
    | .lose c op => ((server.operations c).step env (.lose op)).map (server.setOperations c)
    | .loseAccept => if server.listening then some server.loseAccept else none
    | .callback c op ch status sv =>
        ((server.operations c).step env (.callback op ch status sv)).map
          (server.setOperations c)

end HttpServer

/-- The server as a machine. -/
def httpServer (env : Env) : Machine HttpServer HttpLabel where
  init := {}
  step := HttpServer.step env

/-! ### What `onAccepted` does -/

/-- The `Connection` gets into the table. -/
def AcceptChoices.enters (ch : AcceptChoices) : Bool := ch.connection && ch.inserted

/-- How often `onAccepted` destroys the `Connection`. -/
def AcceptChoices.destroyed (ch : AcceptChoices) : ℕ :=
  if !ch.connection then 0
  else if !ch.inserted then 2
  else (!ch.callback || ch.submit.isSome).toNat

/-- The ledger at the end of `onAccepted`. -/
def AcceptChoices.entry (ch : AcceptChoices) : Ledger where
  accepted := true
  allocated := ch.connection
  connectionDestroyed := ch.destroyed
  socketDestroyed := if ch.connection then ch.destroyed else 1

section

variable {server : HttpServer} {c : ConnectionId} {ch : AcceptChoices}

/-- **The ledger after `onAccepted`** has a new entry, which says what went wrong. -/
theorem onAccepted_ledger :
    (server.onAccepted c ch).2.ledger = Function.update server.ledger c ch.entry := by
  obtain ⟨connection, inserted, callback, submit, rearm⟩ := ch
  cases connection <;> cases inserted <;> cases callback <;> cases submit <;>
    simp [HttpServer.onAccepted, HttpServer.arrive, HttpServer.allocate, HttpServer.leave,
      HttpServer.addConnection, HttpServer.destroyConnection, HttpServer.destroySocket,
      HttpServer.record, HttpServer.setOperations, AcceptChoices.entry, AcceptChoices.destroyed]

/-- **The table after `onAccepted`** has a new entry if the `Connection` got into it, whatever
fails then. -/
theorem onAccepted_connections :
    (server.onAccepted c ch).2.connections =
      if ch.enters then c :: server.connections else server.connections := by
  obtain ⟨connection, inserted, callback, submit, rearm⟩ := ch
  cases connection <;> cases inserted <;> cases callback <;> cases submit <;> rfl

/-- **The operations after `onAccepted`** are as before, with the first read if the call came
to it. -/
theorem onAccepted_operations :
    (server.onAccepted c ch).2.operations =
      if ch.enters && ch.callback then
        Function.update server.operations c ((server.operations c).accept ch.submit)
      else server.operations := by
  obtain ⟨connection, inserted, callback, submit, rearm⟩ := ch
  cases connection <;> cases inserted <;> cases callback <;> cases submit <;> rfl

/-- `onAccepted` does not undo the end of the process. -/
theorem onAccepted_terminated (h : server.terminated = true) :
    (server.onAccepted c ch).2.terminated = true := by
  obtain ⟨connection, inserted, callback, submit, rearm⟩ := ch
  cases connection <;> cases inserted <;> cases callback <;> cases submit <;>
    simp [HttpServer.onAccepted, HttpServer.arrive, HttpServer.allocate, HttpServer.leave,
      HttpServer.addConnection, HttpServer.destroyConnection, HttpServer.destroySocket,
      HttpServer.record, HttpServer.setOperations, h]

/-- `onAccepted` does nothing to another connection. -/
theorem onAccepted_of_ne {c' : ConnectionId} (hne : c' ≠ c) :
    (server.onAccepted c ch).2.ledger c' = server.ledger c' ∧
      (server.onAccepted c ch).2.operations c' = server.operations c' ∧
      (c' ∈ (server.onAccepted c ch).2.connections ↔ c' ∈ server.connections) := by
  rw [onAccepted_ledger, onAccepted_operations, onAccepted_connections]
  refine ⟨Function.update_of_ne hne _ _, ?_, ?_⟩
  · split
    · exact Function.update_of_ne hne _ _
    · rfl
  · split
    · rw [List.mem_cons, or_iff_right hne]
    · exact Iff.rfl

end

/-! ### Steps -/

namespace HttpServer

/-- **What a step does** to the server, one case per label. -/
inductive Moves (env : Env) (server : HttpServer) : HttpLabel → HttpServer → Prop
  | accept {c : ConnectionId} {ch : AcceptChoices}
      (hnew : (server.ledger c).accepted = false) :
      Moves env server (.accept c ch) (server.onAccepted c ch).2
  | complete {c : ConnectionId} {op : Op} {bytes : Bytes}
      (hop : op ∈ (server.operations c).outstanding) :
      Moves env server (.complete c op bytes)
        (server.setOperations c ((server.operations c).complete op bytes))
  | lose {c : ConnectionId} {op : Op} (hop : op ∈ (server.operations c).outstanding) :
      Moves env server (.lose c op)
        (server.setOperations c ((server.operations c).lose op))
  | loseAccept (hlistening : server.listening = true) :
      Moves env server .loseAccept server.loseAccept
  | callback {c : ConnectionId} {op : Op} {ch : Choices} {status : AsyncTaskStatus} {sv : Bytes}
      (hop : op ∈ (server.operations c).completed) :
      Moves env server (.callback c op ch status sv)
        (server.setOperations c ((server.operations c).callback env op ch status sv))

/-- The inversion of a step: it makes one of the moves. -/
theorem moves_of_step {env : Env} {server server' : HttpServer} {l : HttpLabel}
    (h : server.step env l = some server') : server.Moves env l server' := by
  rw [step.eq_def] at h
  split at h
  · cases h
  · cases l with
    | accept c ch =>
        obtain ⟨hnew, rfl⟩ := Option.ite_none_right_eq_some.mp h |>.imp_right Option.some.inj
        exact .accept (by simpa using (Bool.and_eq_true_iff.mp hnew).2)
    | complete c op bytes =>
        obtain ⟨s, hs, rfl⟩ := Option.map_eq_some_iff.mp h
        obtain ⟨hop, rfl⟩ := Operations.complete_of_step hs
        exact .complete hop
    | lose c op =>
        obtain ⟨s, hs, rfl⟩ := Option.map_eq_some_iff.mp h
        obtain ⟨hop, rfl⟩ := Operations.lose_of_step hs
        exact .lose hop
    | loseAccept =>
        obtain ⟨hlistening, rfl⟩ := Option.ite_none_right_eq_some.mp h |>.imp_right Option.some.inj
        exact .loseAccept hlistening
    | callback c op ch status sv =>
        obtain ⟨s, hs, rfl⟩ := Option.map_eq_some_iff.mp h
        obtain ⟨hop, rfl⟩ := Operations.callback_of_step hs
        exact .callback hop

/-- No step is made after `std::terminate`. -/
theorem running_of_step {env : Env} {server server' : HttpServer} {l : HttpLabel}
    (h : server.step env l = some server') : server.terminated = false := by
  rw [step.eq_def] at h
  split at h
  · cases h
  · exact Bool.eq_false_iff.mpr ‹_›

/-- **What the server knows of its connections**: of one that was not accepted yet, nothing; one
on which an operation was posted is in the table. -/
structure Recorded (server : HttpServer) : Prop where
  fresh : ∀ c, (server.ledger c).accepted = false → c ∉ server.connections
  entered : ∀ c, (server.operations c).accepted = true → c ∈ server.connections
  sequential : ∀ c, Sequential (server.operations c)
  running : ∀ c, (server.operations c).terminated = true → server.terminated = true

section

variable {env : Env} {server : HttpServer}

/-- A socket that is new has no operation yet. -/
theorem Recorded.not_accepted (h : Recorded server) {c : ConnectionId}
    (hnew : (server.ledger c).accepted = false) : (server.operations c).accepted = false :=
  Bool.eq_false_iff.mpr fun haccepted => h.fresh c hnew (h.entered c haccepted)

/-- A call of `onAccepted` keeps what the server knows of its connections right. -/
theorem Recorded.accept (h : Recorded server) {c : ConnectionId} (ch : AcceptChoices)
    (hnew : (server.ledger c).accepted = false) : Recorded (server.onAccepted c ch).2 := by
  have hnot := h.not_accepted hnew
  refine ⟨fun c' hc' => ?_, fun c' hc' => ?_, fun c' => ?_, fun c' hc' => ?_⟩
  · by_cases heq : c' = c
    · subst heq
      rw [onAccepted_ledger, Function.update_self] at hc'
      cases hc'
    · obtain ⟨hledger, -, htable⟩ := @onAccepted_of_ne server c ch c' heq
      rw [hledger] at hc'
      exact mt htable.mp (h.fresh c' hc')
  · by_cases heq : c' = c
    · subst heq
      rw [onAccepted_operations] at hc'
      rw [onAccepted_connections]
      split at hc'
      · rename_i henters
        rw [if_pos (Bool.and_eq_true_iff.mp henters).1]
        exact List.mem_cons_self
      · rw [hnot] at hc'
        cases hc'
    · obtain ⟨-, hoperations, htable⟩ := @onAccepted_of_ne server c ch c' heq
      rw [hoperations] at hc'
      exact htable.mpr (h.entered c' hc')
  · by_cases heq : c' = c
    · subst heq
      rw [onAccepted_operations]
      split
      · rw [Function.update_self]
        exact (h.sequential c').accept hnot ch.submit
      · exact h.sequential c'
    · rw [(@onAccepted_of_ne server c ch c' heq).2.1]
      exact h.sequential c'
  · refine onAccepted_terminated (h.running c' ?_)
    rw [onAccepted_operations] at hc'
    split at hc'
    · by_cases heq : c' = c
      · subst heq
        rwa [Function.update_self] at hc'
      · rwa [Function.update_of_ne heq] at hc'
    · exact hc'

/-- A connection something happens to is in the table. -/
theorem Recorded.mem_connections (h : Recorded server) {c : ConnectionId} {op : Op}
    (hop : op ∈ (server.operations c).outstanding ∨ op ∈ (server.operations c).completed) :
    c ∈ server.connections := by
  by_contra hc
  have hfresh : (server.operations c).accepted = false :=
    Bool.eq_false_iff.mpr fun haccepted => hc (h.entered c haccepted)
  obtain ⟨hout, hdone, -⟩ := (h.sequential c).fresh hfresh
  rw [hout, hdone] at hop
  rcases hop with hop | hop <;> cases hop

/-- What the server knows of its connections stays right when the operations of one that is in the
table move on. -/
theorem Recorded.setOperations (h : Recorded server) {c : ConnectionId} {s : Operations}
    (hc : c ∈ server.connections) (hs : Sequential s) : Recorded (server.setOperations c s) := by
  refine ⟨h.fresh, fun c' hc' => ?_, fun c' => ?_, fun c' hc' => ?_⟩
  · by_cases heq : c' = c
    · rw [heq]
      exact hc
    · rw [setOperations_operations, if_neg heq] at hc'
      exact h.entered c' hc'
  · rw [setOperations_operations]
    split
    · exact hs
    · exact h.sequential c'
  · rw [setOperations_operations] at hc'
    refine Bool.or_eq_true_iff.mpr ?_
    split at hc'
    · exact .inr hc'
    · exact .inl (h.running c' hc')

/-- Every step keeps what the server knows of its connections. -/
theorem Recorded.step {server' : HttpServer} {l : HttpLabel} (h : Recorded server)
    (hstep : server.step env l = some server') : Recorded server' := by
  cases moves_of_step hstep with
  | accept hnew => exact h.accept _ hnew
  | complete hop =>
      exact h.setOperations (h.mem_connections (.inl hop)) ((h.sequential _).complete hop _)
  | lose hop => exact h.setOperations (h.mem_connections (.inl hop)) ((h.sequential _).lose hop)
  | loseAccept hlistening => exact ⟨h.fresh, h.entered, h.sequential, h.running⟩
  | callback hop =>
      exact h.setOperations (h.mem_connections (.inr hop)) ((h.sequential _).callback hop _ _ _)

/-- In every run of the server what it knows of its connections is right. -/
theorem recorded_of_run (h : (httpServer env).Reachable server) : Recorded server := by
  refine h.invariant ?_ fun s l t hs hstep => hs.step hstep
  refine ⟨fun c _ hc => (by cases hc), fun c hc => (by cases hc), fun c => ?_, fun c hc => hc⟩
  have hinit : (Http.operations env).Reachable (Http.operations env).init := .refl
  exact sequential_of_run hinit

/-- While the server makes steps none of its connections has ended the process. -/
theorem Recorded.all_running {server' : HttpServer} {l : HttpLabel} (h : Recorded server)
    (hstep : server.step env l = some server') (c : ConnectionId) :
    (server.operations c).terminated = false := by
  refine Bool.eq_false_iff.mpr fun hc => ?_
  exact Bool.false_ne_true ((running_of_step hstep).symm.trans (h.running c hc))

/-- A step of the server is a step of each connection, or leaves it. -/
theorem operations_of_step {server' : HttpServer} {l : HttpLabel} (h : Recorded server)
    (hstep : server.step env l = some server') (c : ConnectionId) :
    server'.operations c = server.operations c ∨
      ∃ l', (server.operations c).step env l' = some (server'.operations c) := by
  have hrunning := h.all_running hstep
  cases moves_of_step hstep with
  | @accept c' ch hnew =>
      have hnot := h.not_accepted hnew
      rw [onAccepted_operations]
      split
      · by_cases heq : c = c'
        · subst heq
          refine .inr ⟨.accept ch.submit, ?_⟩
          simp [Operations.step, hrunning, hnot]
        · exact .inl (Function.update_of_ne heq _ _)
      · exact .inl rfl
  | @complete c' op bytes hop =>
      rw [setOperations_operations]
      split
      · subst c
        exact .inr ⟨.complete op bytes, by simp [Operations.step, hrunning, hop]⟩
      · exact .inl rfl
  | @lose c' op hop =>
      rw [setOperations_operations]
      split
      · subst c
        exact .inr ⟨.lose op, by simp [Operations.step, hrunning, hop]⟩
      · exact .inl rfl
  | loseAccept hlistening => exact .inl rfl
  | @callback c' op ch status sv hop =>
      rw [setOperations_operations]
      split
      · subst c
        exact .inr ⟨.callback op ch status sv, by simp [Operations.step, hrunning, hop]⟩
      · exact .inl rfl

/-- **Every connection of the server runs as a connection by itself**: what holds in every run of
one holds of each in every run of the server. -/
theorem operations_of_run (h : (httpServer env).Reachable server) (c : ConnectionId) :
    (Http.operations env).Reachable (server.operations c) := by
  refine Machine.RunWhere.simulate (N := Http.operations env) Recorded
    (fun server => server.operations c) h (recorded_of_run .refl)
    (fun _ _ _ hrecorded hstep => hrecorded.step hstep) ?_
  rintro server l server' hrecorded - hstep
  rcases operations_of_step hrecorded hstep c with heq | ⟨l', hl'⟩
  · rw [heq]
    exact .refl
  · exact .single trivial hl'

end

/-! ### Who owns what was accepted -/

/-- **Single ownership**: one entry of the table owns the `Connection` and through it the
`Socket`, or both are destroyed once, the `Connection` if there was one, and no entry refers
to them. -/
def SingleOwner (server : HttpServer) (c : ConnectionId) : Prop :=
  server.connections.count c = 1 ∧ (server.ledger c).connectionDestroyed = 0 ∧
      (server.ledger c).socketDestroyed = 0 ∨
    c ∉ server.connections ∧
      (server.ledger c).connectionDestroyed = (server.ledger c).allocated.toNat ∧
      (server.ledger c).socketDestroyed = 1

/-- **What was accepted has a single owner** at the first exit of `onAccepted`, where no
`Connection` was allocated, and at those where the read is posted; at the others it has not. -/
theorem single_owner_iff {env : Env} {server server' : HttpServer} {c : ConnectionId}
    {ch : AcceptChoices} (h : (httpServer env).Reachable server)
    (hstep : server.step env (.accept c ch) = some server') :
    server'.SingleOwner c ↔
      ch.connection = false ∨
        ch.inserted = true ∧ ch.callback = true ∧ ch.submit = none := by
  cases moves_of_step hstep with
  | accept hnew =>
      have hnot : c ∉ server.connections := (recorded_of_run h).fresh c hnew
      have hcount : server.connections.count c = 0 := List.count_eq_zero.mpr hnot
      rw [SingleOwner, onAccepted_ledger, onAccepted_connections, Function.update_self]
      obtain ⟨connection, inserted, callback, submit, rearm⟩ := ch
      cases connection with
      | false =>
          simp [AcceptChoices.enters, AcceptChoices.entry, AcceptChoices.destroyed, hnot]
      | true =>
          cases inserted with
          | false =>
              simp [AcceptChoices.enters, AcceptChoices.entry, AcceptChoices.destroyed]
          | true =>
              simp [AcceptChoices.enters, AcceptChoices.entry, AcceptChoices.destroyed, hcount,
                Bool.toNat_eq_zero]

/-- A socket that is accepted when nothing goes wrong has a single owner. -/
theorem single_owner_accepted :
    ∃ server : HttpServer, server.connections = [0] ∧ server.SingleOwner 0 := by
  obtain ⟨server, hstep, htable⟩ : ∃ server : HttpServer,
      (httpServer .bare).init.step .bare (.accept 0 {}) = some server ∧
        server.connections = [0] :=
    ⟨_, rfl, rfl⟩
  exact ⟨server, htable, (single_owner_iff .refl hstep).mpr (.inr ⟨rfl, rfl, rfl⟩)⟩

/-- **A dangling entry**: the read callback finds no memory, and `conn` destroys the
`Connection` that the table refers to. -/
theorem not_single_owner :
    ¬∀ (env : Env) (server server' : HttpServer) (c : ConnectionId) (ch : AcceptChoices),
      (httpServer env).Reachable server →
      server.step env (.accept c ch) = some server' → server'.SingleOwner c := by
  intro h
  obtain ⟨server, hstep, htable, hdestroyed⟩ : ∃ server : HttpServer,
      (httpServer .bare).init.step .bare (.accept 0 { callback := false }) = some server ∧
        server.connections = [0] ∧ (server.ledger 0).connectionDestroyed = 1 :=
    ⟨_, rfl, rfl, rfl⟩
  rcases h .bare _ server 0 _ .refl hstep with ⟨-, hlive, -⟩ | ⟨hnot, -, -⟩
  · omega
  · exact hnot (htable ▸ List.mem_cons_self)

end HttpServer

/-! ### Whether anything still happens to a connection -/

/-- An operation is outstanding, or a callback has not come back: it is on its way, or it has
ended the process. -/
def Operations.Busy (s : Operations) : Prop :=
  s.outstanding ≠ [] ∨ s.completed ≠ [] ∨ s.terminated = true

section

variable {env : Env} {s : Operations}

/-- A call submits an operation if and only if its `Result` holds one. -/
theorem submitted_ne_nil_iff {ch : Choices} {view : HttpRequestLineView} {result : Result}
    {actions : List Action} (h : Did env ch view result actions) :
    submitted actions ≠ [] ↔ result.posted.isSome = true := by
  cases h with
  | nothing hposted hdispatch | read hposted hdispatch | body n hposted hdispatch
  | dispatched d hposted hdispatch | responded d state hposted hdispatch hanswered =>
      simp [submitted, Action.op?, hposted]

/-- An operation that completes waits for its callback. -/
theorem Operations.busy_complete (op : Op) (bytes : Bytes) : (s.complete op bytes).Busy := by
  refine .inr (.inl ?_)
  simp [Operations.complete]

/-- Nothing happens to a connection any more once its operation is lost. -/
theorem Operations.not_busy_lose (h : Sequential s) (hrunning : s.terminated = false) {op : Op}
    (hop : op ∈ s.outstanding) : ¬(s.lose op).Busy := by
  obtain ⟨hout, hdone⟩ := h.only hop
  simp [Operations.Busy, Operations.lose, hout, hdone, hrunning]

/-- The accept leaves the connection busy if the read is posted. -/
theorem Operations.busy_accept_iff (h : Sequential s) (hfresh : s.accepted = false)
    (hrunning : s.terminated = false) (submit : ExceptionPointer) :
    (s.accept submit).Busy ↔ submit = none := by
  obtain ⟨hout, hdone, -⟩ := h.fresh hfresh
  cases submit with
  | none => simp [Operations.Busy, Operations.accept, Operations.took, submitted, Action.op?]
  | some e =>
      simp [Operations.Busy, Operations.accept, Operations.took, submitted, hout, hdone, hrunning]

/-- **When a callback leaves the connection busy**: a read callback proceeds, and a write
callback must not come back. -/
theorem busy_callback_iff (h : Sequential s) (hrunning : s.terminated = false) {op : Op}
    (hop : op ∈ s.completed) (ch : Choices) (status : AsyncTaskStatus) (sv : Bytes) :
    (s.callback env op ch status sv).Busy ↔
      if op.isWrite then status ≠ .done ∧ status ≠ .interrupted
      else s.reader.proceeds env ch status sv = true := by
  obtain ⟨hout, hdone⟩ := h.alone hop
  rw [Operations.callback]
  cases op.isWrite with
  | true =>
      cases status with
      | done | interrupted | ready | running =>
          simp [Operations.Busy, HttpWriteAsyncCallback.onStatusChanged, Operations.terminate,
            hout, hdone, hrunning]
  | false =>
      have hposts := @HttpReadAsyncCallback.postsIf_onStatusChanged env ch s.reader status sv
      have hrefines := @HttpReadAsyncCallback.refines_onStatusChanged env ch [] s.reader status sv
      rw [if_neg Bool.false_ne_true, if_neg Bool.false_ne_true]
      generalize s.reader.onStatusChanged env ch status sv = y at hposts hrefines
      generalize Trace.onStatusChanged ⟨s.reader, []⟩ env ch status sv = x at hrefines
      cases hrefines with
      | terminated why => exact iff_of_true (.inr (.inr rfl)) hposts
      | @returned e t result actions he hreader hlog hdid =>
          rw [show s.reader.proceeds env ch status sv = result.posted.isSome from hposts,
            ← submitted_ne_nil_iff hdid]
          simp [Operations.Busy, Operations.took, hlog, hout, hdone, hrunning]

end

/-! ### The table holds live connections -/

namespace HttpServer

/-- **The table holds only live connections**: they are not destroyed, and something still
happens to them. -/
structure OnlyLive (server : HttpServer) : Prop where
  live : ∀ c ∈ server.connections, (server.ledger c).connectionDestroyed = 0
  busy : ∀ c ∈ server.connections, (server.operations c).Busy

/-- **What keeps it so**: behind a successful insertion `onAccepted` posts the read, every
operation that was posted comes to its callback, a read callback proceeds, and no write callback
comes back. -/
def Upholds (env : Env) (server : HttpServer) : HttpLabel → Prop
  | .accept _ ch => ch.enters = true → ch.callback = true ∧ ch.submit = none
  | .complete _ _ _ | .loseAccept => True
  | .lose _ _ => False
  | .callback c op ch status sv =>
      if op.isWrite then status ≠ .done ∧ status ≠ .interrupted
      else (server.operations c).reader.proceeds env ch status sv = true

instance (env : Env) (server : HttpServer) : (l : HttpLabel) → Decidable (server.Upholds env l)
  | .accept _ ch =>
      inferInstanceAs (Decidable (ch.enters = true → ch.callback = true ∧ ch.submit = none))
  | .complete _ _ _ | .loseAccept => inferInstanceAs (Decidable True)
  | .lose _ _ => inferInstanceAs (Decidable False)
  | .callback c op ch status sv =>
      inferInstanceAs (Decidable (if op.isWrite then status ≠ .done ∧ status ≠ .interrupted
        else (server.operations c).reader.proceeds env ch status sv = true))

section

variable {env : Env} {server : HttpServer}

/-- The new connection is in the table if it got there. -/
theorem Recorded.mem_onAccepted_iff (h : Recorded server) {c : ConnectionId} {ch : AcceptChoices}
    (hnew : (server.ledger c).accepted = false) :
    c ∈ (server.onAccepted c ch).2.connections ↔ ch.enters = true := by
  rw [onAccepted_connections]
  split
  · exact iff_of_true List.mem_cons_self ‹_›
  · exact iff_of_false (h.fresh c hnew) ‹_›

/-- The new connection, once it is in the table, lives and is busy if and only if its read
was posted. -/
theorem Recorded.onAccepted_busy_iff (h : Recorded server) {c : ConnectionId} {ch : AcceptChoices}
    (hnew : (server.ledger c).accepted = false)
    (hrunning : (server.operations c).terminated = false) (henters : ch.enters = true) :
    ((server.onAccepted c ch).2.ledger c).connectionDestroyed = 0 ∧
        ((server.onAccepted c ch).2.operations c).Busy ↔
      ch.callback = true ∧ ch.submit = none := by
  have hbusy :=
    Operations.busy_accept_iff (h.sequential c) (h.not_accepted hnew) hrunning ch.submit
  obtain ⟨hconnection, hinserted⟩ := Bool.and_eq_true_iff.mp henters
  rw [onAccepted_ledger, onAccepted_operations, Function.update_self, henters, Bool.true_and]
  cases hcallback : ch.callback with
  | false =>
      simp [AcceptChoices.entry, AcceptChoices.destroyed, hconnection, hinserted, hcallback]
  | true =>
      rw [if_pos rfl, Function.update_self, hbusy]
      simp +contextual [AcceptChoices.entry, AcceptChoices.destroyed, hconnection, hinserted,
        hcallback]

/-- A call of `onAccepted` keeps every entry alive exactly when the read of its own entry
is posted. -/
theorem OnlyLive.accept_iff (h : OnlyLive server) (hrecorded : Recorded server)
    {c : ConnectionId} {ch : AcceptChoices} (hnew : (server.ledger c).accepted = false)
    (hrunning : (server.operations c).terminated = false) :
    (server.onAccepted c ch).2.OnlyLive ↔
      (ch.enters = true → ch.callback = true ∧ ch.submit = none) := by
  have hmem := @Recorded.mem_onAccepted_iff server hrecorded c ch hnew
  have hself := @Recorded.onAccepted_busy_iff server hrecorded c ch hnew hrunning
  constructor
  · intro hlive henters
    have hc := hmem.mpr henters
    exact (hself henters).mp ⟨hlive.live c hc, hlive.busy c hc⟩
  · intro hkeep
    have hall : ∀ c' ∈ (server.onAccepted c ch).2.connections,
        ((server.onAccepted c ch).2.ledger c').connectionDestroyed = 0 ∧
          ((server.onAccepted c ch).2.operations c').Busy := by
      intro c' hc'
      by_cases heq : c' = c
      · subst heq
        have henters := hmem.mp hc'
        exact (hself henters).mpr (hkeep henters)
      · obtain ⟨hledger, hoperations, htable⟩ := @onAccepted_of_ne server c ch c' heq
        rw [hledger, hoperations]
        exact ⟨h.live c' (htable.mp hc'), h.busy c' (htable.mp hc')⟩
    exact ⟨fun c' hc' => (hall c' hc').1, fun c' hc' => (hall c' hc').2⟩

/-- When the operations of a connection that is in the table move on, the table stays live if and
only if that connection does. -/
theorem OnlyLive.setOperations_iff (h : OnlyLive server) {c : ConnectionId} {s : Operations}
    (hc : c ∈ server.connections) : (server.setOperations c s).OnlyLive ↔ s.Busy := by
  constructor
  · intro hlive
    have hbusy := hlive.busy c hc
    rwa [setOperations_operations, if_pos rfl] at hbusy
  · intro hbusy
    refine ⟨h.live, fun c' hc' => ?_⟩
    rw [setOperations_operations]
    split
    · exact hbusy
    · exact h.busy c' hc'

/-- **A step keeps the table live** exactly when it meets the condition. -/
theorem OnlyLive.step_iff {server' : HttpServer} {l : HttpLabel} (h : OnlyLive server)
    (hrecorded : Recorded server) (hstep : server.step env l = some server') :
    server'.OnlyLive ↔ server.Upholds env l := by
  have hrunning := hrecorded.all_running hstep
  cases moves_of_step hstep with
  | accept hnew => exact h.accept_iff hrecorded hnew (hrunning _)
  | complete hop =>
      rw [h.setOperations_iff (hrecorded.mem_connections (.inl hop))]
      exact iff_of_true (Operations.busy_complete _ _) trivial
  | lose hop =>
      rw [h.setOperations_iff (hrecorded.mem_connections (.inl hop))]
      exact iff_of_false (Operations.not_busy_lose (hrecorded.sequential _) (hrunning _) hop) id
  | loseAccept hlistening => exact iff_of_true ⟨h.live, h.busy⟩ trivial
  | callback hop =>
      rw [h.setOperations_iff (hrecorded.mem_connections (.inr hop))]
      exact busy_callback_iff (hrecorded.sequential _) (hrunning _) hop _ _ _

/-- **The table holds only live connections**, in every state of every run whose steps uphold
it; and from such a state a step keeps it so exactly when it does. -/
theorem only_live_iff
    (h : (httpServer env).RunWhere (HttpServer.Upholds env) (httpServer env).init server) :
    server.OnlyLive ∧
      ∀ l server', server.step env l = some server' →
        (server'.OnlyLive ↔ server.Upholds env l) := by
  have hrecorded : Recorded server := recorded_of_run (h.mono fun _ _ _ => trivial)
  have hlive : server.OnlyLive := by
    have hboth : server.Recorded ∧ server.OnlyLive := by
      refine h.invariant (I := fun server => server.Recorded ∧ server.OnlyLive)
        ⟨recorded_of_run .refl, fun c hc => (by cases hc), fun c hc => (by cases hc)⟩ ?_
      rintro server l server' ⟨hrec, hlive⟩ hkeeps hstep
      exact ⟨hrec.step hstep, (hlive.step_iff hrec hstep).mpr hkeeps⟩
    exact hboth.2
  exact ⟨hlive, fun l server' hstep => hlive.step_iff hrecorded hstep⟩

end

/-- A connection whose response is being written is alive in the table. -/
theorem only_live_answered :
    ∃ server : HttpServer, (server.connections = [0] ∧
      ((server.operations 0).outstanding.map Op.isWrite) = [true]) ∧ server.OnlyLive := by
  obtain ⟨server, hrun, hwriting⟩ := Machine.exists_runWhere (M := httpServer .bare)
    (G := HttpServer.Upholds .bare) (s := (httpServer .bare).init)
    (P := fun server => server.connections = [0] ∧
      ((server.operations 0).outstanding.map Op.isWrite) = [true])
    [.accept 0 {}, .complete 0 .read getRequest, .callback 0 .read .succeed .done getRequest]
    (by decide)
  exact ⟨server, hwriting, (only_live_iff hrun).1⟩

/-- The state in which the server answers `getRequest`. -/
def getState : HttpURLHandlerState where
  urlPath := text "/a"
  urlQuery := []
  urlFragment := []
  requestHeaderView := { headers := [(text "Host", text "y")] }
  responseData := HttpURLHandlerState.responseText .notFound (text "text/plain") []
  stage := .ended

/-- **An entry that stays**: the response is written, nothing is outstanding any more, and the
connection is in the table. -/
theorem not_only_live :
    ¬∀ (env : Env) (server : HttpServer), (httpServer env).Reachable server →
      server.OnlyLive := by
  intro h
  obtain ⟨server, hrun, htable, hout, hdone, hrunning⟩ := Machine.exists_runWhere
    (M := httpServer .bare) (G := fun _ _ => True) (s := (httpServer .bare).init)
    (P := fun server => server.connections = [0] ∧ (server.operations 0).outstanding = [] ∧
      (server.operations 0).completed = [] ∧ (server.operations 0).terminated = false)
    [.accept 0 {}, .complete 0 .read getRequest, .callback 0 .read .succeed .done getRequest,
      .complete 0 (.write getState) [], .callback 0 (.write getState) .succeed .done []]
    (by decide)
  rcases (h .bare server hrun).busy 0 (htable ▸ List.mem_cons_self) with hbusy | hbusy | hbusy
  · exact hbusy hout
  · exact hbusy hdone
  · rw [hrunning] at hbusy
    cases hbusy

end HttpServer

end Netknot.Http
