import Netknot.Http.ReadCallback

/-!
# The Operations a Call Posts

The read callback once more, with what it does to the outside in the order in which it does
it: every call of `readAsync` and `writeAsync` that submits an operation, and every dispatch
of a request, goes to a log. The response that is written is there with the
`HttpURLHandlerState` it was built in, so that its stage can be seen. Nothing in these
functions keeps them from posting twice, or from dispatching again after a post; that they do
not follows when they are compared with the functions that return one `Result`.

## Main results

* `refines_reads`, `refines_respond`: the log of a submission is what its `Result` says.
-/

namespace Netknot.Http

open Search

/-- An asynchronous operation of a connection. -/
inductive Op
  /-- A read into the buffer of the accept callback. -/
  | read
  /-- A read into `body`. -/
  | body (size : ℕ)
  /-- The write of the `responseData` of this state. -/
  | write (state : HttpURLHandlerState)
  deriving DecidableEq, Repr

/-- What a call of the callback does to the outside. -/
inductive Action
  | dispatch (d : Dispatch)
  | post (op : Op)
  deriving DecidableEq, Repr

/-- A call of the callback under way. -/
structure Trace where
  reader : HttpReadAsyncCallback
  log : List Action := []

/-- The end of a call: what it returns, or `std::terminate`. -/
abbrev Ending := Except Terminate (ExceptionPointer × Trace)

namespace Trace

/-- `return e`. -/
def leave (t : Trace) (e : ExceptionPointer) : Ending := .ok (e, t)

/-- The reader changes. -/
def update (t : Trace) (reader : HttpReadAsyncCallback) : Trace := { t with reader := reader }

/-- The next thing the call does. -/
def act (t : Trace) (action : Action) : Trace := { t with log := t.log ++ [action] }

/-- `return readAsync(...)`, and the `writeAsync` at the end of the dispatch: a submission that
returns an exception leaves nothing outstanding. -/
def submit (t : Trace) (ch : Choices) (op : Op) : Ending :=
  match ch.submit with
  | some e => t.leave (some e)
  | none => (t.act (.post op)).leave none

/-- `writeResponse:`. -/
def respond (t : Trace) (ch : Choices) (state : HttpURLHandlerState) : Ending :=
  if ch.oom .responseCallback then t.leave (some .outOfMemory) else t.submit ch (.write state)

/-- The server answers itself. -/
def answer (t : Trace) (env : Env) (ch : Choices) (state : HttpURLHandlerState)
    (status : HttpResponseStatus) : Ending := do
  let (e, state) ← state.writeResponse env.sizeofSizeT (fun i => ch.oom (.responseData i))
    status (text "text/plain") []
  if e.isSome && env.assertions then throw .unhandledException
  else (t.act (.dispatch (.status status))).respond ch state

/-- `case HttpParseStatus::Body`. -/
def onBody (t : Trace) (env : Env) (ch : Choices) : Ending :=
  if t.reader.isChunked then throw .chunked
  else do match ← HttpReadAsyncCallback.splitTarget t.reader.requestLineView.path with
  | none =>
      t.answer env ch
        { urlPath := [], urlQuery := [], urlFragment := [],
          requestHeaderView := t.reader.requestHeaderView } .badRequest
  | some target =>
      let state : HttpURLHandlerState :=
        { urlPath := target.path, urlQuery := target.query, urlFragment := target.fragment,
          requestHeaderView := t.reader.requestHeaderView }
      match env.handlerRegistries.lookup target.path with
      | none => t.answer env ch state .notFound
      | some handlers =>
          match handlers.lookup t.reader.requestLineView.method with
          | none => t.answer env ch state .methodNotAllowed
          | some handleURL =>
              let t := t.act (.dispatch (.handler t.reader.requestLineView.method state))
              match handleURL state with
              | some e => t.leave (some e)
              | none => t.respond ch state

/-- `noContentLength:`. -/
def awaitBody (t : Trace) (env : Env) (ch : Choices) : Ending :=
  let t := t.update { t.reader with parseStatus := .body }
  if t.reader.isChunked then throw .chunked
  else if t.reader.expectedBodySize ≠ 0 then t.submit ch (.body t.reader.expectedBodySize)
  else t.onBody env ch

/-- The `Content-Length` header. -/
def onContentLength (t : Trace) (env : Env) (ch : Choices) : Ending :=
  match t.reader.requestHeaderView.find (text "Content-Length") with
  | none => t.awaitBody env ch
  | some value =>
      match HttpReadAsyncCallback.contentLength env.sizeMax 0 value with
      | none => throw .contentLength
      | some n =>
          if ch.oom .body then t.leave (some .outOfMemory)
          else
            let body := t.reader.body.take n ++ List.replicate (n - t.reader.body.length) none
            (t.update { t.reader with body := body, expectedBodySize := n }).awaitBody env ch

/-- The header block is complete. -/
def onHeaderBlock (t : Trace) (env : Env) (ch : Choices) : Ending := do
  match ← parseHttpRequestHeader env.duplicate (fun line => ch.oom (.headerEntry line))
      t.reader.requestHeader with
  | none => throw .requestHeader
  | some view =>
      let t := t.update { t.reader with requestHeaderView := view }
      match view.find (text "Transfer-Encoding") with
      | none => t.onContentLength env ch
      | some value =>
          let t := t.update { t.reader with transferEncoding := value }
          if value = text "chunked" then
            (t.update { t.reader with isChunked := true }).awaitBody env ch
          else t.onContentLength env ch

/-- `case HttpParseStatus::Header`. -/
def onHeader (t : Trace) (env : Env) (ch : Choices) (sv : Bytes) : Ending := do
  match find blankLine sv with
  | some offSeparator =>
      let piece ← substr sv 0 (offSeparator + 2)
      if ch.oom .requestHeader then t.leave (some .outOfMemory)
      else
        let _ ← substrFrom sv (offSeparator + 4)
        (t.update { t.reader with
          requestHeader := t.reader.requestHeader ++ piece }).onHeaderBlock env ch
  | none =>
      if ch.oom .requestHeader then t.leave (some .outOfMemory)
      else
        let t := t.update { t.reader with requestHeader := t.reader.requestHeader ++ sv }
        match find blankLine t.reader.requestHeader with
        | none => t.submit ch .read
        | some _ => t.onHeaderBlock env ch

/-- The request line is complete. -/
def onRequestLine (t : Trace) (env : Env) (ch : Choices) (sv : Bytes) : Ending := do
  match ← parseHttpRequestLine t.reader.requestLine with
  | none => throw .requestLine
  | some view =>
      (t.update { t.reader with
        requestLineView := view, parseStatus := .header }).onHeader env ch sv

/-- `case HttpParseStatus::Initial`. -/
def onInitial (t : Trace) (env : Env) (ch : Choices) (sv : Bytes) : Ending := do
  match find crlf sv with
  | some offSeparator =>
      let requestLineSv ← substr sv 0 offSeparator
      if ch.oom .requestLine then t.leave (some .outOfMemory)
      else
        let t := t.update { t.reader with requestLine := t.reader.requestLine ++ requestLineSv }
        if sv.length ≤ offSeparator + 2 then t.submit ch .read
        else
          let sv ← substrFrom sv (offSeparator + 2)
          t.onRequestLine env ch sv
  | none =>
      if ch.oom .requestLine then t.leave (some .outOfMemory)
      else
        let t := t.update { t.reader with requestLine := t.reader.requestLine ++ sv }
        match find crlf t.reader.requestLine with
        | none => t.submit ch .read
        | some _ => t.onRequestLine env ch sv

/-- `HttpReadAsyncCallback::onStatusChanged`. -/
def onStatusChanged (t : Trace) (env : Env) (ch : Choices) (status : AsyncTaskStatus)
    (sv : Bytes) : Ending :=
  match status with
  | .done =>
      match t.reader.parseStatus with
      | .initial => t.onInitial env ch sv
      | .header => t.onHeader env ch sv
      | .body => t.onBody env ch
  | _ => t.leave none

end Trace

/-! ### The log of a call -/

/-- The handler the request is dispatched to, if one is registered. -/
def handlerFor (env : Env) (view : HttpRequestLineView) : Option HttpRequestHandler :=
  match HttpReadAsyncCallback.splitTarget view.path with
  | .ok (some target) =>
      (env.handlerRegistries.lookup target.path).bind fun handlers => handlers.lookup view.method
  | _ => none

/-- **How the response came about**: a handler was registered and the state is as it was made,
or the server has built the response itself. -/
def Dispatch.Answered (env : Env) (ch : Choices) (view : HttpRequestLineView)
    (state : HttpURLHandlerState) : Dispatch → Prop
  | .handler _ state₀ =>
      (handlerFor env view).isSome = true ∧ state = state₀ ∧ state₀.stage = .statusLine
  | .status code =>
      handlerFor env view = none ∧
        ∃ (e : ExceptionPointer) (state₀ : HttpURLHandlerState), state₀.stage = .statusLine ∧
          state₀.writeResponse env.sizeofSizeT (fun i => ch.oom (.responseData i)) code
            (text "text/plain") [] = .ok (e, state)

/-- **What a call did**, by its `Result`: it posted a read, or it dispatched the request and
posted the response at most, in this order. -/
inductive Did (env : Env) (ch : Choices) (view : HttpRequestLineView) (result : Result) :
    List Action → Prop
  | nothing (hposted : result.posted = none) (hdispatch : result.dispatch = none) :
      Did env ch view result []
  | read (hposted : result.posted = some .read) (hdispatch : result.dispatch = none) :
      Did env ch view result [.post .read]
  | body (n : ℕ) (hposted : result.posted = some (.body n)) (hdispatch : result.dispatch = none) :
      Did env ch view result [.post (.body n)]
  | dispatched (d : Dispatch) (hposted : result.posted = none)
      (hdispatch : result.dispatch = some d) : Did env ch view result [.dispatch d]
  | responded (d : Dispatch) (state : HttpURLHandlerState)
      (hposted : result.posted = some (.response state.responseData))
      (hdispatch : result.dispatch = some d) (hanswered : d.Answered env ch view state) :
      Did env ch view result [.dispatch d, .post (.write state)]

/-- **The log is what the `Result` says**, behind what was in it before. -/
inductive Refines (env : Env) (ch : Choices) (view : HttpRequestLineView) (log : List Action) :
    Ending → Except Terminate Result → Prop
  | terminated (why : Terminate) : Refines env ch view log (.error why) (.error why)
  | returned {e : ExceptionPointer} {t : Trace} {result : Result} (actions : List Action)
      (he : e = result.e) (hreader : t.reader = result.reader) (hlog : t.log = log ++ actions)
      (hdid : Did env ch view result actions) :
      Refines env ch view log (.ok (e, t)) (.ok result)

section

variable {env : Env} {ch : Choices} {view : HttpRequestLineView} {log : List Action}

/-- A return without a posted operation has the log that its `Result` says. -/
theorem refines_returns (reader : HttpReadAsyncCallback) (e : ExceptionPointer) :
    Refines env ch view log (Trace.leave ⟨reader, log⟩ e)
      (.ok { e := e, reader := reader, posted := none, dispatch := none }) :=
  .returned [] rfl rfl (List.append_nil log).symm (.nothing rfl rfl)

/-- So has a call that posts a read, or fails to. -/
theorem refines_reads (reader : HttpReadAsyncCallback) {op : Op} {posted : Posted}
    (hdid : ∀ result : Result, result.posted = some posted → result.dispatch = none →
      Did env ch view result [.post op]) :
    Refines env ch view log (Trace.submit ⟨reader, log⟩ ch op) (.ok (reader.reads ch posted)) := by
  rw [Trace.submit, HttpReadAsyncCallback.reads]
  cases ch.submit with
  | some e => exact .returned [] rfl rfl (List.append_nil log).symm (.nothing rfl rfl)
  | none => exact .returned [.post op] rfl rfl rfl (hdid _ rfl rfl)

/-- So has a call that dispatches the request and posts nothing. -/
theorem refines_dispatched (reader : HttpReadAsyncCallback) (e : ExceptionPointer)
    (d : Dispatch) :
    Refines env ch view log (Trace.leave ⟨reader, log ++ [.dispatch d]⟩ e)
      (.ok { e := e, reader := reader, posted := none, dispatch := some d }) :=
  .returned [.dispatch d] rfl rfl rfl (.dispatched d rfl rfl)

/-- So has a call that posts the response, or fails to. -/
theorem refines_respond (reader : HttpReadAsyncCallback) {state : HttpURLHandlerState}
    {d : Dispatch} (hanswered : d.Answered env ch view state) :
    Refines env ch view log (Trace.respond ⟨reader, log ++ [.dispatch d]⟩ ch state)
      (.ok (reader.respond ch state d)) := by
  rw [Trace.respond, HttpReadAsyncCallback.respond]
  cases ch.oom .responseCallback with
  | true => exact refines_dispatched reader _ d
  | false =>
      rw [if_neg Bool.false_ne_true, if_neg Bool.false_ne_true, Trace.submit]
      cases ch.submit with
      | some e => exact refines_dispatched reader _ d
      | none =>
          refine .returned [.dispatch d, .post (.write state)] rfl rfl ?_
            (.responded d state rfl rfl hanswered)
          exact List.append_assoc log [.dispatch d] [.post (.write state)]

end

/-! ### The request line of a call -/

/-- The request line the call comes to, with what the chunk `sv` holds of it. -/
def HttpReadAsyncCallback.lineAt (reader : HttpReadAsyncCallback) (sv : Bytes) : Bytes :=
  reader.requestLine ++ sv.take ((find crlf sv).getD sv.length)

/-- The request line the call dispatches by. -/
def HttpReadAsyncCallback.viewAt (reader : HttpReadAsyncCallback) (sv : Bytes) :
    HttpRequestLineView :=
  match reader.parseStatus with
  | .initial =>
      match parseHttpRequestLine (reader.lineAt sv) with
      | .ok (some view) => view
      | _ => {}
  | .header | .body => reader.requestLineView

end Netknot.Http
