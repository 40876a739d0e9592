import Netknot.Http.ReadCallback
import Netknot.Lib.Machine

/-!
# The Buffer of the Accept Callback

`onAccepted` posts the first read of every connection on the one array `buffer` of the accept
callback, and `readNext` posts the later ones on it again; only a body is read into an array
of the connection. The kernel writes a completed read into its buffer at once, and the
callback looks there when a worker runs it. In between another connection's read may
complete, into the same bytes.

The server is a `Machine` whose labels are the accepts, the completions and the callbacks of
its connections, in any order. `replay` is what a connection would make of its own bytes if
it had a buffer of its own. An accept that fails posts no read and is left out.

## Main results

* `tracks_step`: the step lemma.
* `non_interference`: as long as no completion changes the bytes of a read that waits for its
  callback, every connection is what its own bytes make of it.
* `conn_eq_feed`: then it is what `Connection.feed` says.
* `spares_of_isolated`: a completion that does change them ends that.
* `interference`: one client's request line, taken from another's bytes.
-/

namespace Netknot.Http

/-! ### The server -/

/-- `sizeof(buffer)`. -/
def bufferSize : ℕ := 4096

/-- The size of the buffer of the outstanding read, if there is one. -/
def Connection.capacity : Connection → Option ℕ
  | .reading _ .accept => some bufferSize
  | .reading reader .body => some reader.expectedBodySize
  | .responding _ _ _ | .idle _ _ _ | .terminated _ => none

/-- One connection of the server. -/
structure Slot where
  conn : Connection := .fresh
  /-- The size of a read that completed and whose callback did not run yet. -/
  pending : Option ℕ := none

/-- The connections that were accepted through one `HttpAcceptAsyncCallback`. -/
structure Server where
  /-- The array `buffer`, as far as it was written. -/
  buffer : Bytes := []
  /-- The connections, in the order they were accepted in. -/
  slots : List Slot := []

/-- What happens to the connections. -/
inductive Event
  /-- `onAccepted`, for a new connection. -/
  | accept
  /-- The outstanding read of connection `c` completes with these bytes. -/
  | complete (c : ℕ) (bytes : Bytes)
  /-- A worker runs the callback of the read of connection `c` that completed. -/
  | callback (c : ℕ) (ch : Choices)

/-- The connection an event is about, once it was accepted. -/
def Event.connection : Event → Option ℕ
  | .accept => none
  | .complete c _ => some c
  | .callback c _ => some c

/-- What the callback of a completed read finds in the buffer of its task. -/
def Slot.view (slot : Slot) (buffer : Bytes) : Bytes :=
  match slot.pending with
  | none => []
  | some size =>
      match slot.conn with
      | .reading reader .body => (reader.body.take size).filterMap id
      | _ => buffer.take size

namespace Server

/-- The process has ended. -/
def ended (s : Server) : Bool := s.slots.any fun slot =>
  match slot.conn with
  | .terminated _ => true
  | _ => false

/-- The array `buffer` when the read of this connection completed with these bytes. -/
def bufferAfter (s : Server) (conn : Connection) (bytes : Bytes) : Bytes :=
  match conn with
  | .reading _ .accept => bytes ++ s.buffer.drop bytes.length
  | _ => s.buffer

/-- One event. -/
def step (env : Env) (s : Server) : Event → Option Server
  | .accept => if s.ended then none else some { s with slots := s.slots ++ [({} : Slot)] }
  | .complete c bytes =>
      match s.slots[c]? with
      | none => none
      | some slot =>
          match slot.pending, slot.conn.capacity with
          | none, some size =>
              if s.ended ∨ size < bytes.length then none
              else some
                { buffer := s.bufferAfter slot.conn bytes
                  slots := s.slots.set c
                    { conn := slot.conn.arrive bytes, pending := some bytes.length } }
          | _, _ => none
  | .callback c ch =>
      match s.slots[c]? with
      | none => none
      | some slot =>
          if s.ended ∨ slot.pending = none then none
          else
            let conn := slot.conn.call env ch (slot.view s.buffer)
            some { s with slots := s.slots.set c { conn := conn } }

end Server

/-- The server as a machine. -/
def server (env : Env) : Machine Server Event where
  init := {}
  step := Server.step env

/-- **The completion spares the reads that wait for their callbacks**: what these will
find stays. -/
def Server.Spares (s : Server) : Event → Prop
  | .complete c bytes => ∀ completed ∈ s.slots[c]?, ∀ slot ∈ s.slots,
      slot.view (s.bufferAfter completed.conn bytes) = slot.view s.buffer
  | .accept | .callback _ _ => True

instance (s : Server) (e : Event) : Decidable (s.Spares e) :=
  match e with
  | .complete c _ => inferInstanceAs (Decidable (∀ completed ∈ s.slots[c]?, _))
  | .accept | .callback _ _ => inferInstanceAs (Decidable True)

/-! ### A connection with a buffer of its own -/

/-- What a connection makes of its own bytes. -/
structure Own where
  conn : Connection := .fresh
  /-- The bytes of a read that completed and whose callback did not run yet. -/
  arrived : Option Bytes := none

/-- What an event does to connection `c`. -/
def Own.step (env : Env) (c : ℕ) (own : Own) : Event → Own
  | .accept => own
  | .complete c' bytes =>
      if c' = c then { conn := own.conn.arrive bytes, arrived := some bytes } else own
  | .callback c' ch =>
      if c' = c then
        { conn := match own.arrived with
            | some bytes => own.conn.call env ch bytes
            | none => own.conn }
      else own

/-- **What connection `c` makes of its own bytes** in these events. -/
def replay (env : Env) (c : ℕ) (events : List Event) : Own :=
  events.foldl (Own.step env c) {}

/-- **The connection is isolated**: it is what its own bytes make of it, and the callback of a
read that completed will find its bytes. -/
def Isolated (env : Env) (events : List Event) (s : Server) (c : ℕ) : Prop :=
  ∀ slot ∈ s.slots[c]?, slot.conn = (replay env c events).conn ∧
    ∀ bytes ∈ (replay env c events).arrived, slot.view s.buffer = bytes

section

variable {env : Env} {s t : Server} {c : ℕ}

/-! ### What an event can do -/

/-- **An event** opens a connection, completes the read that is outstanding on one, or runs the
callback of one that completed. -/
theorem step_cases {e : Event} (h : s.step env e = some t) :
    (e = .accept ∧ t = { s with slots := s.slots ++ [({} : Slot)] }) ∨
    (∃ c bytes slot size, e = .complete c bytes ∧ s.slots[c]? = some slot ∧
      slot.pending = none ∧ slot.conn.capacity = some size ∧
      t = { buffer := s.bufferAfter slot.conn bytes
            slots := s.slots.set c
              { conn := slot.conn.arrive bytes, pending := some bytes.length } }) ∨
    (∃ c ch slot, e = .callback c ch ∧ s.slots[c]? = some slot ∧ slot.pending ≠ none ∧
      t = { s with
            slots := s.slots.set c { conn := slot.conn.call env ch (slot.view s.buffer) } }) := by
  cases e with
  | accept =>
      simp only [Server.step] at h
      split at h
      · cases h
      · exact .inl ⟨rfl, (Option.some.inj h).symm⟩
  | complete c bytes =>
      refine .inr (.inl ?_)
      simp only [Server.step] at h
      split at h
      · cases h
      · rename_i slot hslot
        split at h
        · rename_i size hpending hsize
          split at h
          · cases h
          · exact ⟨c, bytes, slot, size, rfl, hslot, hpending, hsize,
              (Option.some.inj h).symm⟩
        · cases h
  | callback c ch =>
      refine .inr (.inr ?_)
      simp only [Server.step] at h
      split at h
      · cases h
      · rename_i slot hslot
        split at h
        · cases h
        · rename_i hnot
          exact ⟨c, ch, slot, rfl, hslot, fun hpending => hnot (.inr hpending),
            (Option.some.inj h).symm⟩

/-! ### Isolation -/

/-- The connection and what it would be with a buffer of its own. -/
structure Agrees (buffer : Bytes) (slot : Slot) (own : Own) : Prop where
  conn : slot.conn = own.conn
  pending : slot.pending = own.arrived.map List.length
  view : ∀ bytes ∈ own.arrived, slot.view buffer = bytes

/-- Connection `c`, if it was accepted, agrees with `own`. -/
def Tracks (c : ℕ) (s : Server) (own : Own) : Prop :=
  match s.slots[c]? with
  | none => own = {}
  | some slot => Agrees s.buffer slot own

theorem tracks_of_none {own : Own} (h : s.slots[c]? = none) : Tracks c s own ↔ own = {} := by
  simp only [Tracks, h]

theorem tracks_of_some {own : Own} {slot : Slot} (h : s.slots[c]? = some slot) :
    Tracks c s own ↔ Agrees s.buffer slot own := by
  simp only [Tracks, h]

/-- A callback finds the bytes of its read right after its completion. -/
theorem view_complete {conn : Connection} {size : ℕ} (s : Server) (bytes : Bytes)
    (hsize : conn.capacity = some size) :
    Slot.view { conn := conn.arrive bytes, pending := some bytes.length }
      (s.bufferAfter conn bytes) = bytes := by
  cases conn with
  | reading reader buffer =>
      cases buffer with
      | accept =>
          simp only [Slot.view, Connection.arrive, Server.bufferAfter]
          exact List.take_left
      | body =>
          simp only [Slot.view, Connection.arrive, HttpReadAsyncCallback.receive]
          rw [List.take_left' (List.length_map some), List.filterMap_map]
          exact List.filterMap_some
  | responding reader dispatch data => cases hsize
  | idle reader dispatch e => cases hsize
  | terminated why => cases hsize

/-- What a callback will find is all of the buffer that matters to a connection. -/
theorem Agrees.of_view {buffer buffer' : Bytes} {slot : Slot} {own : Own}
    (h : Agrees buffer slot own) (hview : slot.view buffer' = slot.view buffer) :
    Agrees buffer' slot own :=
  ⟨h.conn, h.pending, fun bytes hbytes => hview.trans (h.view bytes hbytes)⟩

/-- An event of another connection keeps the track of this one. -/
theorem tracks_of_ne {own : Own} {c' : ℕ} {slot : Slot} {buffer : Bytes} (h : Tracks c s own)
    (hne : c' ≠ c) (hview : ∀ slot ∈ s.slots, slot.view buffer = slot.view s.buffer) :
    Tracks c { buffer := buffer, slots := s.slots.set c' slot } own := by
  have hget : (s.slots.set c' slot)[c]? = s.slots[c]? := List.getElem?_set_ne hne
  cases hc : s.slots[c]? with
  | none =>
      rw [tracks_of_none hc] at h
      exact (tracks_of_none (hget.trans hc)).mpr h
  | some slot' =>
      rw [tracks_of_some hc] at h
      exact (tracks_of_some (hget.trans hc)).mpr
        (h.of_view (hview slot' (List.mem_of_getElem? hc)))

/-- An event of this connection keeps the track of it, when its slot agrees again. -/
theorem tracks_set {own : Own} {slot slot' : Slot} {buffer : Bytes}
    (hslot : s.slots[c]? = some slot) (h : Agrees buffer slot' own) :
    Tracks c { buffer := buffer, slots := s.slots.set c slot' } own := by
  have hlt : c < s.slots.length := (List.getElem?_eq_some_iff.mp hslot).1
  have hget : (s.slots.set c slot')[c]? = some slot' := by
    rw [List.getElem?_set_self hlt]
  exact (tracks_of_some hget).mpr h

/-- A new connection keeps the track of this one. -/
theorem tracks_accept {own : Own} (h : Tracks c s own) :
    Tracks c { s with slots := s.slots ++ [({} : Slot)] } own := by
  cases hc : s.slots[c]? with
  | some slot =>
      have hlt : c < s.slots.length := (List.getElem?_eq_some_iff.mp hc).1
      have hget : (s.slots ++ [({} : Slot)])[c]? = some slot := by
        rw [List.getElem?_append_left hlt, hc]
      exact (tracks_of_some hget).mpr ((tracks_of_some hc).mp h)
  | none =>
      obtain rfl : own = {} := (tracks_of_none hc).mp h
      have hge : s.slots.length ≤ c := List.getElem?_eq_none_iff.mp hc
      by_cases heq : c = s.slots.length
      · have hget : (s.slots ++ [({} : Slot)])[c]? = some {} := by
          rw [heq, List.getElem?_concat_length]
        exact (tracks_of_some hget).mpr ⟨rfl, rfl, fun _ hbytes => by cases hbytes⟩
      · have hget : (s.slots ++ [({} : Slot)])[c]? = none := by
          rw [List.getElem?_eq_none_iff, List.length_append, List.length_singleton]
          omega
        exact (tracks_of_none hget).mpr rfl

/-- **The step lemma**: an event that spares the reads that wait for their callbacks keeps the
track of a connection. -/
theorem tracks_step {own : Own} {e : Event} (h : Tracks c s own) (hspares : s.Spares e)
    (hstep : s.step env e = some t) : Tracks c t (own.step env c e) := by
  rcases step_cases hstep with ⟨rfl, rfl⟩ |
    ⟨c', bytes, slot, size, rfl, hslot, hpending, hsize, rfl⟩ |
    ⟨c', ch, slot, rfl, hslot, hpending, rfl⟩
  · exact tracks_accept h
  · by_cases hcc : c' = c
    · subst hcc
      obtain ⟨hconn, -, -⟩ := (tracks_of_some hslot).mp h
      rw [Own.step, if_pos rfl]
      refine tracks_set hslot ⟨congrArg (fun conn => Connection.arrive conn bytes) hconn, rfl, ?_⟩
      intro bytes' hbytes'
      obtain rfl : bytes = bytes' := Option.some.inj hbytes'
      exact view_complete s bytes hsize
    · rw [Own.step, if_neg hcc]
      exact tracks_of_ne h hcc (hspares slot hslot)
  · by_cases hcc : c' = c
    · subst hcc
      obtain ⟨hconn, hown, hview⟩ := (tracks_of_some hslot).mp h
      obtain ⟨bytes, hbytes⟩ : ∃ bytes, own.arrived = some bytes := by
        cases harrived : own.arrived with
        | none => exact absurd (hown.trans (by rw [harrived]; rfl)) hpending
        | some bytes => exact ⟨bytes, rfl⟩
      rw [Own.step, if_pos rfl]
      refine tracks_set hslot ⟨?_, rfl, fun _ hnone => by cases hnone⟩
      rw [hconn, hview bytes hbytes, hbytes]
    · rw [Own.step, if_neg hcc]
      exact tracks_of_ne h hcc fun _ _ => rfl

/-- The run lemma: a run whose events spare the reads keeps the track of a connection. -/
theorem tracks_of_exec {events : List Event} (c : ℕ)
    (h : (server env).execWhere Server.Spares (server env).init events = some s) :
    Tracks c s (replay env c events) :=
  Machine.execWhere_foldl (R := Tracks c) (fun _ _ _ _ => tracks_step)
    ((tracks_of_none rfl).mpr rfl) h

/-- The events of other connections do not matter to `replay`. -/
theorem replay_filter (events : List Event) :
    replay env c (events.filter fun e => e.connection = some c) = replay env c events := by
  rw [replay, List.foldl_filter]
  congr 1
  funext own e
  cases e with
  | accept => rfl
  | complete c' bytes => by_cases h : c' = c <;> simp [Event.connection, Own.step, h]
  | callback c' ch => by_cases h : c' = c <;> simp [Event.connection, Own.step, h]

/-- The events of a connection to which these chunks come, when nothing goes wrong. -/
def deliveries (c : ℕ) (chunks : List Bytes) : List Event :=
  chunks.flatMap fun bytes => [.complete c bytes, .callback c .succeed]

/-- With a buffer of its own, a connection makes of its chunks what `feed` does. -/
theorem replay_deliveries (c : ℕ) (chunks : List Bytes) :
    replay env c (deliveries c chunks) = { conn := Connection.feed env .fresh chunks } := by
  suffices hfold : ∀ conn, (deliveries c chunks).foldl (Own.step env c) { conn := conn } =
      { conn := Connection.feed env conn chunks } from hfold .fresh
  induction chunks with
  | nil => exact fun _ => rfl
  | cons chunk chunks ih =>
      intro conn
      rw [deliveries, List.flatMap_cons, List.foldl_append]
      have hchunk : [Event.complete c chunk, .callback c .succeed].foldl (Own.step env c)
          { conn := conn } = { conn := conn.deliver env .succeed chunk } := by
        simp only [List.foldl_cons, List.foldl_nil, Own.step, if_true, Connection.deliver]
      rw [hchunk]
      exact ih _

/-! ### The results -/

/-- **Non-interference**: when every completion spares the reads that wait for their
callbacks, every connection is isolated; and two runs with the same events of a connection
leave the same of it, whatever the other clients send. -/
theorem non_interference {events : List Event}
    (h : (server env).execWhere Server.Spares (server env).init events = some s) (c : ℕ) :
    Isolated env events s c ∧
      ∀ (events' : List Event) (s' : Server),
        (server env).execWhere Server.Spares (server env).init events' = some s' →
        (events'.filter fun e => e.connection = some c) =
          (events.filter fun e => e.connection = some c) →
        ∀ slot ∈ s.slots[c]?, ∀ slot' ∈ s'.slots[c]?, slot'.conn = slot.conn := by
  have htracks := tracks_of_exec c h
  refine ⟨fun slot hslot => ?_, fun events' s' h' hevents slot hslot slot' hslot' => ?_⟩
  · have hagrees := (tracks_of_some hslot).mp htracks
    exact ⟨hagrees.conn, hagrees.view⟩
  · have hagrees := (tracks_of_some hslot).mp htracks
    have hagrees' := (tracks_of_some hslot').mp (tracks_of_exec c h')
    rw [hagrees.conn, hagrees'.conn, ← replay_filter events', hevents, replay_filter]

/-- **The server does to each client's chunks what `feed` does**, when every completion spares
the reads that wait for their callbacks. -/
theorem conn_eq_feed {events : List Event} {chunks : List Bytes}
    (h : (server env).execWhere Server.Spares (server env).init events = some s)
    (hevents : (events.filter fun e => e.connection = some c) = deliveries c chunks) :
    ∀ slot ∈ s.slots[c]?, slot.conn = Connection.feed env .fresh chunks := by
  intro slot hslot
  have hagrees := (tracks_of_some hslot).mp (tracks_of_exec c h)
  rw [hagrees.conn, ← replay_filter, hevents, replay_deliveries]

/-- **The condition is exact**: a completion that does not spare a read that waits for its
callback ends the isolation of that connection. -/
theorem spares_of_isolated {events : List Event} {e : Event}
    (h : (server env).execWhere Server.Spares (server env).init events = some s)
    (hstep : s.step env e = some t)
    (hisolated : ∀ c, Isolated env (events ++ [e]) t c) : s.Spares e := by
  rcases step_cases hstep with ⟨rfl, rfl⟩ |
    ⟨c, bytes, slot, size, rfl, hslot, hpending, hsize, rfl⟩ |
    ⟨c, ch, slot, rfl, hslot, hpending, rfl⟩
  · exact trivial
  · intro completed hcompleted slot' hmem
    obtain rfl : slot = completed := Option.some.inj (hslot.symm.trans hcompleted)
    obtain ⟨c', hc'⟩ := List.mem_iff_getElem?.mp hmem
    have hagrees := (tracks_of_some hc').mp (tracks_of_exec c' h)
    cases hsize' : slot'.pending with
    | none => simp only [Slot.view, hsize']
    | some size' =>
        have hne : c ≠ c' := by
          rintro rfl
          obtain rfl : slot = slot' := Option.some.inj (hslot.symm.trans hc')
          exact absurd (hpending.symm.trans hsize') (by simp)
        obtain ⟨bytes', hbytes'⟩ : ∃ bytes', (replay env c' events).arrived = some bytes' := by
          cases harrived : (replay env c' events).arrived with
          | none => exact absurd (hsize'.symm.trans hagrees.pending) (by simp [harrived])
          | some bytes' => exact ⟨bytes', rfl⟩
        have hreplay : replay env c' (events ++ [.complete c bytes]) = replay env c' events := by
          simp only [replay, List.foldl_append, List.foldl_cons, List.foldl_nil, Own.step,
            if_neg hne]
        have hview := (hisolated c' slot' ((List.getElem?_set_ne hne).trans hc')).2
        rw [hreplay] at hview
        rw [hview bytes' hbytes', hagrees.view bytes' hbytes']
  · exact trivial

end

/-- Two reads, each of which completes when no other waits for its callback. -/
def inTurn : List Event :=
  [.accept, .accept, .complete 0 (text "GET /a"), .callback 0 .succeed,
    .complete 1 (text "PUT /b"), .callback 1 .succeed]

/-- Two connections that are served one after the other are isolated. -/
theorem non_interference_in_turn :
    ∃ s ∈ (server .bare).execWhere Server.Spares (server .bare).init inTurn,
      Isolated .bare inTurn s 0 := by
  have hrun : ((server .bare).execWhere Server.Spares (server .bare).init inTurn).isSome = true :=
    by decide
  obtain ⟨s, hs⟩ := Option.isSome_iff_exists.mp hrun
  exact ⟨s, hs, (non_interference hs 0).1⟩

/-- Two reads that complete before the callback of the first has run. -/
def overlapping : List Event :=
  [.accept, .accept, .complete 0 (text "GET /a"), .complete 1 (text "PUT /b"),
    .callback 0 .succeed]

/-- **One client's request line is taken from another's bytes.** -/
theorem interference :
    ¬∀ (env : Env) (events : List Event) (s : Server) (c : ℕ),
      (server env).execWhere (fun _ _ => True) (server env).init events = some s →
      Isolated env events s c := fun h => by
  have hrun : ∃ s ∈ (server .bare).execWhere (fun _ _ => True) (server .bare).init overlapping,
      ∃ slot ∈ s.slots[0]?, slot.conn ≠ (replay .bare 0 overlapping).conn := by decide
  obtain ⟨s, hs, slot, hslot, hne⟩ := hrun
  exact hne (h .bare overlapping s 0 hs slot hslot).1

end Netknot.Http
