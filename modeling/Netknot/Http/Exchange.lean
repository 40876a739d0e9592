import Netknot.Http.Framing
import Netknot.Http.Serve

/-!
# From the Client and Back

Handlers are registered one by one, the bytes of a request come in, and a client reads what is
written for them. `Replies` says what is due to a request, by the registrations that succeeded
alone; `Reply.Heard` says what the client gets of it.

The client that takes the version token as it is written gets the response, and a line end is
left over; one that takes any other gets nothing. Behind a handler nothing is written at all.

## Main results

* `heard_of_replies`: the answer of the server is the reply that is due.
* `client_hears`: in every run of a server with any number of connections.
-/

namespace Netknot.Http

open Search
open HttpReadAsyncCallback (FragmentFirst)

/-! ### What is due -/

/-- What the server makes of a request. -/
inductive Reply
  /-- It answers itself. -/
  | status (status : HttpResponseStatus)
  /-- It invokes a handler. -/
  | handled (handleURL : HttpRequestHandler)

/-- The reply to what goes there. -/
def Route.reply : Route → Reply
  | .handler handleURL => .handled handleURL
  | .methodNotAllowed => .status .methodNotAllowed
  | .notFound => .status .notFound

/-- **What is due to a request**, as the registrations have it: its target is rejected, or its
path and its method are looked up. -/
inductive Replies (registrations : List Registration) (r : Request) : Reply → Prop
  | rejected (first : FragmentFirst r.line.path) : Replies registrations r (.status .badRequest)
  | routed {goal : Route} (kept : ¬FragmentFirst r.line.path)
      (goes : RoutesTo registrations (pathPart r.line.path) r.line.method goal) :
      Replies registrations r goal.reply

/-- A request is due **one reply** only. -/
theorem Replies.unique {registrations : List Registration} (hdistinct : Distinct registrations)
    {r : Request} {reply reply' : Reply} (h : Replies registrations r reply)
    (h' : Replies registrations r reply') : reply = reply' := by
  cases h with
  | rejected first =>
      cases h' with
      | rejected _ => rfl
      | routed kept _ => exact absurd first kept
  | routed kept goes =>
      cases h' with
      | rejected first => exact absurd first kept
      | routed _ goes' => rw [goes.unique hdistinct goes']

/-! ### What is heard -/

/-- **What a client hears**, whatever comes behind it: a response, if it takes the version token,
or nothing of the handler, whose exception the callback returns. -/
def Reply.Heard (r : Request) (view : HttpRequestHeaderView) (conn : Connection) : Reply → Prop
  | .status code => ∃ reader data, conn = .responding reader (some (.status code)) data ∧
      ∀ version rest, readResponse version (data ++ rest) =
        if version = text "HTTP/1,1" then
          some (sent code (text "text/plain") [], crlf ++ rest)
        else none
  | .handled handleURL => ∃ reader, conn =
      match handleURL (r.state view) with
      | none => .responding reader (some (.handler r.line.method (r.state view))) []
      | some e => .idle reader (some (.handler r.line.method (r.state view))) (some e)

section

variable {env : Env} {r : Request} {view : HttpRequestHeaderView}
  {reader : HttpReadAsyncCallback}

/-- An answer of the server itself is read. -/
theorem heard_statusAnswer (status : HttpResponseStatus) :
    Reply.Heard r view (.answered reader (statusAnswer status)) (.status status) := by
  have hframed := framed_sent status [] (show 13 ∉ text "text/plain" by decide)
  refine ⟨reader, _, rfl, fun version rest => ?_⟩
  rw [responseText_eq_frame, List.append_assoc]
  by_cases hversion : version = text "HTTP/1,1"
  · subst hversion
    rw [if_pos rfl]
    exact readResponse_frame hframed _
  · rw [if_neg hversion]
    exact readResponse_frame_of_ne hframed (Ne.symm hversion) _

/-- **The answer of the server is the reply that is due.** -/
theorem heard_of_replies {registrations : List Registration}
    {duplicate : HttpRequestHandler → HttpRequestHandler → Option HttpRequestHandler}
    {assertions : Bool}
    (hregistered : Registered duplicate assertions registrations env.handlerRegistries)
    (hdistinct : Distinct registrations) {reply : Reply}
    (h : Replies registrations r reply) :
    reply.Heard r view (.answered reader (r.answer env view)) := by
  rw [Request.answer]
  cases h with
  | rejected first =>
      rw [if_pos first]
      exact heard_statusAnswer .badRequest
  | @routed goal kept goes =>
      have hroute := goes.unique hdistinct (routesTo_of_registered hregistered hdistinct _ _)
      rw [if_neg kept, ← hroute]
      cases goal with
      | notFound => exact heard_statusAnswer .notFound
      | methodNotAllowed => exact heard_statusAnswer .methodNotAllowed
      | handler handleURL =>
          refine ⟨reader, ?_⟩
          dsimp only
          cases handleURL (r.state view) with
          | none => rfl
          | some e => rfl

/-- **The request has come in**: its head, in these chunks, and its body, in one more, if a body
is announced. -/
def Request.Came (env : Env) (view : HttpRequestHeaderView) (chunks reads : List Bytes) : Prop :=
  match framing env view with
  | .complete => reads = chunks
  | .body _ => ∃ bytes, reads = chunks ++ [bytes]
  | .ends _ => False

/-- A request that has come in is answered. -/
theorem feed_of_came {s : Bytes} {chunks reads : List Bytes} (h : r.Spells s)
    (hne : r.fields ≠ []) (hchunks : Delivers chunks s)
    (hcuts : ∀ k ∈ cuts chunks, Harmless env s k) (hview : view ∈ r.view env)
    (hcame : Request.Came env view chunks reads) :
    ∃ reader, Connection.feed env .fresh reads = .answered reader (r.answer env view) := by
  have hleaves : r.Leaves env _ := leaves_of_delivers h hchunks hcuts
  rw [Request.Leaves, if_neg hne, hview] at hleaves
  cases hframing : framing env view with
  | complete =>
      simp only [hframing] at hleaves
      simp only [Request.Came, hframing] at hcame
      obtain ⟨reader, -, hconn⟩ := hleaves
      exact ⟨reader, hcame ▸ hconn⟩
  | body n =>
      simp only [hframing] at hleaves
      simp only [Request.Came, hframing] at hcame
      obtain ⟨bytes, rfl⟩ := hcame
      obtain ⟨reader, -, -, -, hbody⟩ := hleaves
      exact ⟨reader.receive bytes, by rw [feed_append]; exact hbody bytes⟩
  | ends why => simp only [Request.Came, hframing] at hcame

end

/-- **What a client hears of the server** is what the registrations say, in every run in which
every completion spares the reads that wait for their callbacks: of any number of connections,
with the request in any chunks whose cuts do no harm, and whatever the bytes of its body are. -/
theorem client_hears {env : Env} {registrations : List Registration}
    {duplicate : HttpRequestHandler → HttpRequestHandler → Option HttpRequestHandler}
    {assertions : Bool}
    (hregistered : Registered duplicate assertions registrations env.handlerRegistries)
    (hdistinct : Distinct registrations) {events : List Event} {server' : Server}
    (hrun : (server env).execWhere Server.Spares (server env).init events = some server')
    {r : Request} {s : Bytes} {chunks reads : List Bytes} {view : HttpRequestHeaderView} {c : ℕ}
    (h : r.Spells s) (hne : r.fields ≠ []) (hchunks : Delivers chunks s)
    (hcuts : ∀ k ∈ cuts chunks, Harmless env s k) (hview : view ∈ r.view env)
    (hcame : Request.Came env view chunks reads)
    (hevents : (events.filter fun e => e.connection = some c) = deliveries c reads) :
    ∀ slot ∈ server'.slots[c]?, ∃! reply, Replies registrations r reply ∧
      reply.Heard r view slot.conn := by
  intro slot hslot
  obtain ⟨reader, hfeed⟩ := feed_of_came h hne hchunks hcuts hview hcame
  have hconn : slot.conn = .answered reader (r.answer env view) :=
    (conn_eq_feed hrun hevents slot hslot).trans hfeed
  obtain ⟨reply, hreply⟩ : ∃ reply, Replies registrations r reply := by
    by_cases hfirst : FragmentFirst r.line.path
    · exact ⟨_, .rejected hfirst⟩
    · exact ⟨_, .routed hfirst (routesTo_of_registered hregistered hdistinct _ _)⟩
  refine ⟨reply, ⟨hreply, ?_⟩, fun reply' hreply' => hreply'.1.unique hdistinct hreply⟩
  rw [hconn]
  exact heard_of_replies hregistered hdistinct hreply

/-- No handler is registered: the client with the token `HTTP/1,1` reads the status 404. -/
theorem client_hears_notFound :
    ∃ server' ∈ (server .bare).execWhere Server.Spares (server .bare).init requestInTurn,
      ∃ slot ∈ server'.slots[0]?,
        Reply.Heard requestOfA ⟨requestOfA.fields⟩ slot.conn (.status .notFound) := by
  have hdelivers : Delivers [getRequest.take 5, getRequest.drop 5] getRequest :=
    ⟨by decide, by decide⟩
  have hrun : ((server .bare).execWhere Server.Spares (server .bare).init
      requestInTurn).any (fun s => s.slots[0]?.isSome) = true := by decide
  obtain ⟨server', hserver, hsome⟩ := (Option.any_eq_true _ _).mp hrun
  obtain ⟨slot, hslot⟩ := Option.isSome_iff_exists.mp hsome
  have hempty : Registered (fun _ _ => none) true [] Env.bare.handlerRegistries := .empty
  have hdistinct : Distinct [] := List.nodup_nil
  obtain ⟨reply, ⟨hreplies, hheard⟩, -⟩ := client_hears hempty hdistinct hserver
    spells_requestOfA (by decide) hdelivers (by decide)
    (show ⟨requestOfA.fields⟩ ∈ requestOfA.view .bare from rfl)
    (show Request.Came .bare _ _ [getRequest.take 5, getRequest.drop 5] from rfl) rfl slot hslot
  have hnotFound : Replies [] requestOfA Route.notFound.reply :=
    .routed (by decide) (.notFound fun _ hmem => absurd hmem List.not_mem_nil)
  obtain rfl := hreplies.unique hdistinct hnotFound
  exact ⟨server', hserver, slot, hslot, hheard⟩

end Netknot.Http
