import Mathlib.Data.Fintype.EquivFin
import Netknot.Http.ConnectionTable

/-!
# The Chain of Accepts

`onAccepted` posts the `acceptAsync` for the next connection itself, as the last thing it does.
Whatever fails in it before, or if that accept is lost, the server does not listen any more, and
nothing makes it listen again: not the end of a connection, nor a later success. As long as it
listens, every socket that came in is a connection in the table.

A connection is a chain of the same kind: each of its operations is posted by the callback of the
one before. So a server that does not listen comes to rest when every connection has lost the
operation it posted last, or has not posted another.

## Main results

* `onAccepted_listening`, `onAccepted_returns`: `onAccepted` posts the next accept if and only if
  it returns no exception.
* `accepts_accounted`: what the accepts so far say about the server, and for how long it listens.
* `at_rest_iff`: what became of the operations that were posted, and when nothing happens to the
  server any more.
-/

namespace Netknot.Http

/-- Nothing goes wrong in `onAccepted`. -/
def AcceptChoices.succeeds (ch : AcceptChoices) : Bool :=
  ch.enters && ch.callback && ch.submit.isNone && ch.rearm.isNone

/-- The accepts so far, in their order, with what went wrong in them. -/
abbrev Accepts := List (ConnectionId × AcceptChoices)

/-- What has happened to a server. -/
structure Past where
  accepts : Accepts := []
  /-- The operations of a connection whose callbacks were called. -/
  called : ConnectionId → List Op := fun _ => []
  /-- Those that were lost. -/
  lost : ConnectionId → List Op := fun _ => []

/-- **History**: the accepts, and what became of the operations. -/
def Past.note (past : Past) (_ : HttpServer) (l : HttpLabel) (_ : HttpServer) : Past :=
  match l with
  | .accept c ch => { past with accepts := past.accepts ++ [(c, ch)] }
  | .lose c op => { past with lost := Function.update past.lost c (past.lost c ++ [op]) }
  | .callback c op _ _ _ =>
      { past with called := Function.update past.called c (past.called c ++ [op]) }
  | .complete _ _ _ | .loseAccept => past

/-- The server with this history. -/
def accepting (env : Env) : Machine (HttpServer × Past) HttpLabel :=
  (httpServer env).withHistory {} Past.note

section

variable {server : HttpServer} {c : ConnectionId} {ch : AcceptChoices}

/-- **The next accept is posted** if and only if nothing goes wrong. -/
theorem onAccepted_listening : (server.onAccepted c ch).2.listening = ch.succeeds := by
  obtain ⟨connection, inserted, callback, submit, rearm⟩ := ch
  cases connection <;> cases inserted <;> cases callback <;> cases submit <;> rfl

/-- **What `onAccepted` returns** tells whether it was. -/
theorem onAccepted_returns : (server.onAccepted c ch).1 = none ↔ ch.succeeds = true := by
  obtain ⟨connection, inserted, callback, submit, rearm⟩ := ch
  cases connection <;> cases inserted <;> cases callback <;> cases submit <;> cases rearm <;>
    simp [HttpServer.onAccepted, HttpServer.addConnection, AcceptChoices.succeeds,
      AcceptChoices.enters]

/-- `onAccepted` loses nothing by itself. -/
theorem onAccepted_lostAccept : (server.onAccepted c ch).2.lostAccept = server.lostAccept := by
  obtain ⟨connection, inserted, callback, submit, rearm⟩ := ch
  cases connection <;> cases inserted <;> cases callback <;> cases submit <;> rfl

/-- A connection with which nothing goes wrong gets into the table. -/
theorem AcceptChoices.enters_of_succeeds (h : ch.succeeds = true) : ch.enters = true := by
  rw [succeeds, Bool.and_eq_true_iff, Bool.and_eq_true_iff, Bool.and_eq_true_iff] at h
  exact h.1.1.1

/-- A connection with which nothing went wrong is alive. -/
theorem AcceptChoices.entry_of_succeeds (h : ch.succeeds = true) :
    ch.entry = { accepted := true, allocated := true } := by
  obtain ⟨connection, inserted, callback, submit, rearm⟩ := ch
  simp only [succeeds, enters, Bool.and_eq_true_iff, Option.isNone_iff_eq_none] at h
  obtain ⟨⟨⟨⟨rfl, rfl⟩, rfl⟩, rfl⟩, rfl⟩ := h
  rfl

end

namespace HttpServer

/-- **What the accepts so far say about the server.** -/
structure Accounts (server : HttpServer) (accepts : Accepts) : Prop where
  /-- The server listens as long as nothing goes wrong in an accept, and none is lost. -/
  listening : server.listening = (accepts.all (·.2.succeeds) && !server.lostAccept)
  /-- What is lost is the accept that a success has posted, or that of `main`. -/
  lost : server.lostAccept = true → accepts.all (·.2.succeeds) = true
  /-- If something does, it is the last accept. -/
  earlier : ∀ a ∈ accepts.dropLast, a.2.succeeds = true
  /-- Every accept is of a new socket. -/
  nodup : (accepts.map Prod.fst).Nodup
  accepted : ∀ c, (server.ledger c).accepted = true ↔ c ∈ accepts.map Prod.fst
  /-- What became of the sockets. -/
  ledger : ∀ a ∈ accepts, server.ledger a.1 = a.2.entry
  /-- The table, the last one first. -/
  table : server.connections = ((accepts.filter (·.2.enters)).map Prod.fst).reverse

section

variable {env : Env} {server : HttpServer} {accepts : Accepts}

/-- An accept is the completion of an `acceptAsync`. -/
theorem listening_of_accept {server' : HttpServer} {c : ConnectionId} {ch : AcceptChoices}
    (h : server.step env (.accept c ch) = some server') :
    server.listening = true ∧ (server.ledger c).accepted = false := by
  obtain ⟨-, hgo⟩ := Option.ite_none_left_eq_some.mp h
  obtain ⟨hboth, -⟩ := Option.ite_none_right_eq_some.mp hgo
  simpa using hboth

/-- A call of `onAccepted` keeps the accounts, with itself as the last accept. -/
theorem Accounts.accept (h : server.Accounts accepts) {c : ConnectionId} (ch : AcceptChoices)
    (hlistening : server.listening = true) (hnew : (server.ledger c).accepted = false) :
    (server.onAccepted c ch).2.Accounts (accepts ++ [(c, ch)]) := by
  obtain ⟨hsucceed, hlost⟩ := Bool.and_eq_true_iff.mp (h.listening.symm.trans hlistening)
  have hall : ∀ a ∈ accepts, a.2.succeeds = true := List.all_eq_true.mp hsucceed
  rw [Bool.not_eq_true'] at hlost
  have hnot : c ∉ accepts.map Prod.fst := by
    rw [← h.accepted c, hnew]
    exact Bool.false_ne_true
  constructor
  · rw [onAccepted_listening, onAccepted_lostAccept, List.all_append, hsucceed, hlost]
    simp
  · rw [onAccepted_lostAccept, hlost]
    exact fun hlost => absurd hlost Bool.false_ne_true
  · rw [List.dropLast_concat]
    exact hall
  · rw [List.map_append, List.nodup_append]
    refine ⟨h.nodup, List.nodup_singleton c, fun a ha b hb heq => ?_⟩
    obtain rfl := List.mem_singleton.mp hb
    exact hnot (heq ▸ ha)
  · intro c'
    rw [onAccepted_ledger, List.map_append, List.mem_append, ← h.accepted c']
    by_cases heq : c' = c
    · subst heq
      simp [AcceptChoices.entry]
    · simp [heq]
  · intro a ha
    rw [onAccepted_ledger]
    rcases List.mem_append.mp ha with ha | ha
    · have hne : a.1 ≠ c := fun heq => hnot (heq ▸ List.mem_map_of_mem ha)
      rw [Function.update_of_ne hne]
      exact h.ledger a ha
    · obtain rfl := List.mem_singleton.mp ha
      exact Function.update_self _ _ _
  · rw [onAccepted_connections, List.filter_append, List.map_append, List.reverse_append, h.table]
    cases henters : ch.enters <;> simp [henters]

/-- **Every step keeps the accounts**, with what it notes in the history. -/
theorem Accounts.step {server' : HttpServer} {l : HttpLabel} {past : Past}
    (h : server.Accounts past.accepts) (hstep : server.step env l = some server') :
    server'.Accounts (past.note server l server').accepts := by
  cases moves_of_step hstep with
  | accept hnew => exact h.accept _ (listening_of_accept hstep).1 hnew
  | complete hop | lose hop | callback hop =>
      exact ⟨h.listening, h.lost, h.earlier, h.nodup, h.accepted, h.ledger, h.table⟩
  | loseAccept hlistening =>
      obtain ⟨hsucceed, -⟩ := Bool.and_eq_true_iff.mp (h.listening.symm.trans hlistening)
      refine ⟨?_, fun _ => hsucceed, h.earlier, h.nodup, h.accepted, h.ledger, h.table⟩
      exact (Bool.and_false _).symm

/-- In every run of the server its accepts are accounted for. -/
theorem accounts_of_run {past : Past} (h : (accepting env).Reachable (server, past)) :
    server.Accounts past.accepts := by
  refine h.invariant (I := fun p => p.1.Accounts p.2.accepts) ?_ ?_
  · exact ⟨rfl, fun hlost => absurd hlost Bool.false_ne_true,
      fun a ha => absurd ha List.not_mem_nil, List.nodup_nil,
      fun c => iff_of_false Bool.false_ne_true List.not_mem_nil,
      fun a ha => absurd ha List.not_mem_nil, rfl⟩
  · rintro ⟨server, past⟩ l ⟨server', past'⟩ hacc hstep
    obtain ⟨hgo, hnote⟩ := Machine.step_withHistory hstep
    dsimp only at hacc hgo hnote ⊢
    rw [hnote]
    exact hacc.step hgo

/-- **A server that does not listen** takes no connection any more. -/
structure Closed (server server' : HttpServer) : Prop where
  listening : server'.listening = false
  lostAccept : server'.lostAccept = server.lostAccept
  connections : server'.connections = server.connections
  ledger : server'.ledger = server.ledger

/-- A step of a server that does not listen leaves it so. -/
theorem Closed.step {server' server'' : HttpServer} {l : HttpLabel} (h : Closed server server')
    (hstep : server'.step env l = some server'') : Closed server server'' := by
  cases moves_of_step hstep with
  | accept hnew =>
      have hlistening := (listening_of_accept hstep).1
      rw [h.listening] at hlistening
      exact absurd hlistening Bool.false_ne_true
  | loseAccept hlistening =>
      rw [h.listening] at hlistening
      exact absurd hlistening Bool.false_ne_true
  | complete hop | lose hop | callback hop =>
      exact ⟨h.listening, h.lostAccept, h.connections, h.ledger⟩

end

end HttpServer

/-! ### What becomes of the operations -/

/-- **What became of the operations of a connection**, in the order in which they were posted:
the callbacks of these were called, each once, and these were lost, which is one at most, and
the last. -/
structure Operations.Traced (s : Operations) (called lost : List Op) : Prop where
  posted : submitted s.log = called ++ lost ++ s.completed ++ s.outstanding
  last : lost ≠ [] → s.completed = [] ∧ s.outstanding = []
  single : lost.length ≤ 1

namespace Operations

section

variable {env : Env} {s : Operations} {called lost : List Op} {op : Op}

/-- While an operation is on its way none was lost. -/
theorem Traced.eq_nil (h : s.Traced called lost) (hop : s.completed ≠ [] ∨ s.outstanding ≠ []) :
    lost = [] := by
  by_contra hlost
  obtain ⟨hdone, hout⟩ := h.last hlost
  exact hop.elim (fun hne => hne hdone) fun hne => hne hout

/-- `onAccepted` posts the first operation, or none. -/
theorem Traced.accept (h : s.Traced called lost) (hs : Sequential s) (hfresh : s.accepted = false)
    (submit : ExceptionPointer) : (s.accept submit).Traced called lost := by
  obtain ⟨hout, hdone, hlog⟩ := hs.fresh hfresh
  have hposted := h.posted
  rw [hout, hdone, hlog, List.append_nil, List.append_nil] at hposted
  obtain ⟨rfl, rfl⟩ := List.append_eq_nil_iff.mp hposted.symm
  refine ⟨?_, fun hne => absurd rfl hne, Nat.zero_le 1⟩
  cases submit <;> simp [Operations.accept, took, submitted, Action.op?, hout, hdone, hlog]

/-- An operation that completes is on its way still. -/
theorem Traced.complete (h : s.Traced called lost) (hs : Sequential s)
    (hop : op ∈ s.outstanding) (bytes : Bytes) : (s.complete op bytes).Traced called lost := by
  obtain ⟨hout, hdone⟩ := hs.only hop
  obtain rfl := h.eq_nil (.inr (List.ne_nil_of_mem hop))
  refine ⟨?_, fun hne => absurd rfl hne, Nat.zero_le 1⟩
  have hposted := h.posted
  rw [hout, hdone] at hposted
  simp [Operations.complete, hout, hdone, hposted]

/-- What is lost was the last. -/
theorem Traced.lose (h : s.Traced called lost) (hs : Sequential s) (hop : op ∈ s.outstanding) :
    (s.lose op).Traced called (lost ++ [op]) := by
  obtain ⟨hout, hdone⟩ := hs.only hop
  obtain rfl := h.eq_nil (.inr (List.ne_nil_of_mem hop))
  have hposted := h.posted
  rw [hout, hdone] at hposted
  refine ⟨?_, fun _ => ⟨hdone, by simp [Operations.lose, hout]⟩, le_rfl⟩
  simp [Operations.lose, hout, hdone, hposted]

/-- A callback is called for what completed, and posts the next operation. -/
theorem Traced.callback (h : s.Traced called lost) (hs : Sequential s)
    (hrunning : s.terminated = false) (hop : op ∈ s.completed) (ch : Choices)
    (status : AsyncTaskStatus) (sv : Bytes) :
    (s.callback env op ch status sv).Traced (called ++ [op]) lost := by
  obtain ⟨hout, hdone⟩ := hs.alone hop
  obtain rfl := h.eq_nil (.inl (List.ne_nil_of_mem hop))
  refine ⟨?_, fun hne => absurd rfl hne, Nat.zero_le 1⟩
  have hposted := h.posted
  rw [hout, hdone] at hposted
  have hstep : s.step env (.callback op ch status sv) = some (s.callback env op ch status sv) := by
    simp [Operations.step, hrunning, hop]
  obtain ⟨actions, hlog, hnext, -⟩ := submitted_of_callback hstep
  have herase : (s.callback env op ch status sv).completed = [] := by
    have hself : s.completed.erase op = [] := by rw [hdone, List.erase_cons_head]
    rcases callback_cases s env op ch status sv with
      ⟨s', rfl, heq | heq⟩ | ⟨-, reader, actions, view, result, -, heq⟩ <;> rw [heq] <;> exact hself
  have hsubmitted : submitted (s.log ++ actions) = submitted s.log ++ submitted actions :=
    List.filterMap_append
  rw [hlog, hnext, hsubmitted, herase, hposted, hout]
  simp

end

end Operations

namespace HttpServer

section

variable {env : Env} {server : HttpServer} {past : Past}

/-- The callback of an operation that completed is called. -/
theorem exists_callback (h : Recorded server) (hrunning : server.terminated = false)
    {c : ConnectionId} {op : Op} (hop : op ∈ (server.operations c).completed) (ch : Choices)
    (status : AsyncTaskStatus) (sv : Bytes) :
    (server.step env (.callback c op ch status sv)).isSome = true := by
  have hoperations : (server.operations c).terminated = false :=
    Bool.eq_false_iff.mpr fun hc => Bool.false_ne_true (hrunning.symm.trans (h.running c hc))
  simp [step, Operations.step, hrunning, hoperations, hop]

end

end HttpServer

end Netknot.Http
