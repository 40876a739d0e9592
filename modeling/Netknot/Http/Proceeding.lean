import Netknot.Http.ReadCallback

/-!
# When a Call Posts an Operation

Every exit of the read callback either posts the next operation or leaves the connection with
none: an allocation has failed, the handler has, or the submission. `proceeds` follows a call
through the request it has read so far and asks at each of these places what was chosen there;
where the call ends the process nothing is left to go wrong.

## Main results

* `postsIf_reads`, `postsIf_respond`: a submission is followed by an operation exactly when it
  succeeds.
-/

namespace Netknot.Http

open Search

/-- The response finds its callback, and `writeAsync` succeeds. -/
def Choices.responseProceeds (ch : Choices) : Bool :=
  !ch.oom .responseCallback && ch.submit.isNone

namespace HttpReadAsyncCallback

/-- The server answers itself. A failure to build the response is dropped, or an `assert` ends
the process. -/
def answerProceeds (env : Env) (ch : Choices) (state : HttpURLHandlerState)
    (status : HttpResponseStatus) : Bool :=
  match state.writeResponse env.sizeofSizeT (fun i => ch.oom (.responseData i)) status
      (text "text/plain") [] with
  | .error _ => true
  | .ok (e, _) => e.isSome && env.assertions || ch.responseProceeds

/-- `case HttpParseStatus::Body`: the handler succeeds, if there is one. -/
def bodyProceeds (reader : HttpReadAsyncCallback) (env : Env) (ch : Choices) : Bool :=
  reader.isChunked ||
    match splitTarget reader.requestLineView.path with
    | .error _ => true
    | .ok none =>
        answerProceeds env ch
          { urlPath := [], urlQuery := [], urlFragment := [],
            requestHeaderView := reader.requestHeaderView } .badRequest
    | .ok (some target) =>
        let state : HttpURLHandlerState :=
          { urlPath := target.path, urlQuery := target.query, urlFragment := target.fragment,
            requestHeaderView := reader.requestHeaderView }
        match env.handlerRegistries.lookup target.path with
        | none => answerProceeds env ch state .notFound
        | some handlers =>
            match handlers.lookup reader.requestLineView.method with
            | none => answerProceeds env ch state .methodNotAllowed
            | some handleURL => (handleURL state).isNone && ch.responseProceeds

/-- `noContentLength:`. -/
def awaitProceeds (reader : HttpReadAsyncCallback) (env : Env) (ch : Choices) : Bool :=
  reader.isChunked ||
    if reader.expectedBodySize ≠ 0 then ch.submit.isNone else reader.bodyProceeds env ch

/-- The `Content-Length` header: the array `body` finds memory. -/
def contentLengthProceeds (reader : HttpReadAsyncCallback) (env : Env) (ch : Choices) : Bool :=
  match reader.requestHeaderView.find (text "Content-Length") with
  | none => reader.awaitProceeds env ch
  | some value =>
      match contentLength env.sizeMax 0 value with
      | none => true
      | some n =>
          !ch.oom .body && { reader with expectedBodySize := n }.awaitProceeds env ch

/-- The header block is complete. -/
def headerBlockProceeds (reader : HttpReadAsyncCallback) (env : Env) (ch : Choices) : Bool :=
  match parseHttpRequestHeader env.duplicate (fun line => ch.oom (.headerEntry line))
      reader.requestHeader with
  | .error _ | .ok none => true
  | .ok (some view) =>
      let reader := { reader with requestHeaderView := view }
      if view.find (text "Transfer-Encoding") = some (text "chunked") then true
      else reader.contentLengthProceeds env ch

/-- `case HttpParseStatus::Header`. -/
def headerProceeds (reader : HttpReadAsyncCallback) (env : Env) (ch : Choices) (sv : Bytes) :
    Bool :=
  !ch.oom .requestHeader &&
    match find blankLine sv with
    | some offSeparator =>
        { reader with
          requestHeader := reader.requestHeader ++ sv.take (offSeparator + 2)
        }.headerBlockProceeds env ch
    | none =>
        let reader := { reader with requestHeader := reader.requestHeader ++ sv }
        match find blankLine reader.requestHeader with
        | none => ch.submit.isNone
        | some _ => reader.headerBlockProceeds env ch

/-- The request line is complete. -/
def requestLineProceeds (reader : HttpReadAsyncCallback) (env : Env) (ch : Choices)
    (sv : Bytes) : Bool :=
  match parseHttpRequestLine reader.requestLine with
  | .error _ | .ok none => true
  | .ok (some view) => { reader with requestLineView := view }.headerProceeds env ch sv

/-- `case HttpParseStatus::Initial`. -/
def initialProceeds (reader : HttpReadAsyncCallback) (env : Env) (ch : Choices) (sv : Bytes) :
    Bool :=
  !ch.oom .requestLine &&
    match find crlf sv with
    | some offSeparator =>
        if sv.length ≤ offSeparator + 2 then ch.submit.isNone
        else
          { reader with
            requestLine := reader.requestLine ++ sv.take offSeparator
          }.requestLineProceeds env ch (sv.drop (offSeparator + 2))
    | none =>
        let reader := { reader with requestLine := reader.requestLine ++ sv }
        match find crlf reader.requestLine with
        | none => ch.submit.isNone
        | some _ => reader.requestLineProceeds env ch sv

/-- **Nothing fails that the call comes to**: no allocation that it makes, not the handler, not
the submission; and the operation was not interrupted. -/
def proceeds (reader : HttpReadAsyncCallback) (env : Env) (ch : Choices)
    (status : AsyncTaskStatus) (sv : Bytes) : Bool :=
  match status with
  | .done =>
      match reader.parseStatus with
      | .initial => reader.initialProceeds env ch sv
      | .header => reader.headerProceeds env ch sv
      | .body => reader.bodyProceeds env ch
  | _ => false

/-- **`b` says whether the call posts**, if it comes back; it holds if the process ends. -/
def PostsIf (b : Bool) : Except Terminate Result → Prop
  | .error _ => b = true
  | .ok result => b = result.posted.isSome

section

variable {env : Env} {ch : Choices}

/-- A call that awaits a read posts it if the post proceeds. -/
theorem postsIf_reads (reader : HttpReadAsyncCallback) (posted : Posted) :
    PostsIf ch.submit.isNone (.ok (reader.reads ch posted)) := by
  cases hsubmit : ch.submit with
  | none => simp [PostsIf, reads, hsubmit]
  | some e => simp [PostsIf, reads, hsubmit]

/-- A call that responds posts the response if the post proceeds. -/
theorem postsIf_respond (reader : HttpReadAsyncCallback) (state : HttpURLHandlerState)
    (dispatch : Dispatch) :
    PostsIf ch.responseProceeds (.ok (reader.respond ch state dispatch)) := by
  rw [Choices.responseProceeds, respond]
  cases ch.oom .responseCallback with
  | true => exact rfl
  | false =>
      cases hsubmit : ch.submit with
      | none => simp [PostsIf]
      | some e => simp [PostsIf]

end

end HttpReadAsyncCallback

end Netknot.Http
