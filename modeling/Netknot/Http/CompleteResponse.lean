import Netknot.Http.Exits

/-!
# The Response That Is Posted

A handler succeeds by returning nothing, and it gets the state of the response by `const`
reference: what is posted then is what the state was made with. The server itself builds its
responses with `writeResponse`, and drops what that returns.

## Main results

* `complete_response_iff`: when the response that is posted is complete.
* `empty_response`: a handler that succeeds, and an empty response.
-/

namespace Netknot.Http

open Search

/-- **A complete response**: status line, header block and body. -/
def HttpURLHandlerState.Complete (state : HttpURLHandlerState) : Prop :=
  state.stage = .ended ∧
    ∃ status contentType body, state.responseData =
      HttpURLHandlerState.responseText status contentType body

/-- A response the server built itself is complete if memory sufficed; the state of a handler
is as it was made. -/
theorem Dispatch.Answered.complete_iff {env : Env} {ch : Choices} {view : HttpRequestLineView}
    {state : HttpURLHandlerState} {d : Dispatch} (h : d.Answered env ch view state) :
    state.Complete ↔
      handlerFor env view = none ∧ ∀ i < 14, ch.oom (.responseData i) = false := by
  cases d with
  | handler method state₀ =>
      obtain ⟨hsome, rfl, hstage⟩ := h
      refine iff_of_false ?_ ?_
      · rintro ⟨hended, -⟩
        exact absurd (hstage.symm.trans hended) HttpURLHandlerStateStage.noConfusion
      · rintro ⟨hnone, -⟩
        rw [hnone] at hsome
        exact Bool.false_ne_true hsome
  | status code =>
      obtain ⟨hnone, e, state₀, hstage, hresponse⟩ := h
      rcases HttpURLHandlerState.writeResponse_cases hstage hresponse with
        ⟨hall, rfl⟩ | ⟨⟨j, hj, hfail⟩, -, hstage'⟩
      · exact iff_of_true ⟨rfl, code, _, _, rfl⟩ ⟨hnone, hall⟩
      · refine iff_of_false (fun hcomplete => hstage' hcomplete.1) ?_
        rintro ⟨-, hall⟩
        exact Bool.false_ne_true ((hall j hj).symm.trans hfail)

/-- **The response that is posted is complete** exactly when no handler is registered for the
request and the response finds memory. -/
theorem complete_response_iff {env : Env} {ch : Choices} {reader : HttpReadAsyncCallback}
    {status : AsyncTaskStatus} {sv : Bytes} {e : ExceptionPointer} {t : Trace}
    {state : HttpURLHandlerState}
    (h : Trace.onStatusChanged ⟨reader, []⟩ env ch status sv = .ok (e, t))
    (hpost : Action.post (.write state) ∈ t.log) :
    state.Complete ↔
      handlerFor env (reader.viewAt sv) = none ∧
        ∀ i < 14, ch.oom (.responseData i) = false := by
  have hrefines := @HttpReadAsyncCallback.refines_onStatusChanged env ch [] reader status sv
  rw [h] at hrefines
  generalize reader.onStatusChanged env ch status sv = y at hrefines
  cases hrefines with
  | returned actions he hreader hlog hdid =>
      rw [hlog, List.nil_append] at hpost
      cases hdid with
      | nothing | read | body n | dispatched d => simp at hpost
      | responded d state' hposted hdispatch hanswered =>
          obtain rfl : state = state' := by simpa using hpost
          exact hanswered.complete_iff

/-- A reader that has come to the body state: the request of `/` with the method `GET`. -/
def bodyReader : HttpReadAsyncCallback where
  parseStatus := .body
  requestLineView := { method := text "GET", path := text "/" }

/-- A request for which no handler is registered is answered with a complete response. -/
theorem complete_response_notFound :
    ∃ state : HttpURLHandlerState, state.Complete ∧
      state.responseData.take 22 = text "HTTP/1,1 404 Not Found" := by
  obtain ⟨e, t, state, hcall, hpost, htext⟩ : ∃ e t state,
      Trace.onStatusChanged ⟨bodyReader, []⟩ .bare .succeed .done [] = .ok (e, t) ∧
      Action.post (.write state) ∈ t.log ∧
      state.responseData.take 22 = text "HTTP/1,1 404 Not Found" :=
    ⟨_, _, _, rfl, .tail _ (.head _), by decide⟩
  have hcomplete := (complete_response_iff hcall hpost).mpr ⟨by decide, fun _ _ => rfl⟩
  exact ⟨state, hcomplete, htext⟩

/-- A server with one handler, which succeeds. -/
def Env.handling : Env :=
  { Env.bare with handlerRegistries := [(text "/", [(text "GET", fun _ => none)])] }

/-- **A response that is posted can be incomplete**: the handler succeeds without having
written anything. -/
theorem empty_response :
    ¬∀ (env : Env) (ch : Choices) (reader : HttpReadAsyncCallback) (status : AsyncTaskStatus)
      (sv : Bytes) (e : ExceptionPointer) (t : Trace) (state : HttpURLHandlerState),
      Trace.onStatusChanged ⟨reader, []⟩ env ch status sv = .ok (e, t) →
      Action.post (.write state) ∈ t.log → state.Complete := by
  intro h
  obtain ⟨e, t, state, hcall, hpost, hempty⟩ : ∃ e t state,
      Trace.onStatusChanged ⟨bodyReader, []⟩ .handling .succeed .done [] = .ok (e, t) ∧
      Action.post (.write state) ∈ t.log ∧ state.stage = .statusLine :=
    ⟨_, _, _, rfl, .tail _ (.head _), rfl⟩
  have hcomplete := h _ _ _ _ _ e t state hcall hpost
  exact absurd (hempty.symm.trans hcomplete.1) HttpURLHandlerStateStage.noConfusion

end Netknot.Http
