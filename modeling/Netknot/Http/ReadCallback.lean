import Mathlib.Algebra.Group.Nat.Defs
import Netknot.Http.Response

/-!
# The Read Callback of the Server

`HttpReadAsyncCallback::onStatusChanged`, which parses a request as its bytes come in and
dispatches it. The cases of its `switch` fall through, so each is a function that ends in a
call of the next.

A call of the callback posts at most one operation and returns; `Result` says which. A
`Connection` is what the library holds of one request between two completions: the reader
and the buffer of the read that is outstanding, or the end of it. `deliver` is the
completion of that read with the bytes of one chunk.

The environment of the server is fixed (`Env`); what can go wrong in one call is chosen
anew for each (`Choices`): which allocations fail, and what `readAsync` or `writeAsync`
returns. A call comes to each of its allocation points at most once.

## Main results

* `onInitial_found`, `onInitial_missing`, `onHeader_found`, `onHeader_missing`: the two
  parsing states, when nothing goes wrong, by what the chunk holds.
* `onBody_succeed`: the dispatch never ends the process when nothing goes wrong.
-/

namespace Netknot.Http

open Search

/-- `HttpParseStatus`. -/
inductive HttpParseStatus
  | initial
  | header
  | body
  deriving DecidableEq, Repr

/-- A request handler. It gets the state by `const` reference, and is taken to respect that and
to submit no operation by itself; so all it does that the server can see is what it returns. -/
abbrev HttpRequestHandler := HttpURLHandlerState → ExceptionPointer

/-- What is fixed while the server runs. -/
structure Env where
  /-- `sizeof(size_t)`. -/
  sizeofSizeT : ℕ
  sizeofSizeT_ge : 4 ≤ sizeofSizeT
  /-- What `peff::HashMap::insert` keeps of the value that is there and the new one. -/
  duplicate : Bytes → Bytes → Option Bytes
  /-- Whether `assert` is enabled. -/
  assertions : Bool
  /-- `HttpServer::handlerRegistries`: by path, and by method. -/
  handlerRegistries : List (Bytes × List (Bytes × HttpRequestHandler))

/-- `SIZE_MAX`. -/
def Env.sizeMax (env : Env) : ℕ := 256 ^ env.sizeofSizeT - 1

/-- A server without handlers. -/
def Env.bare : Env where
  sizeofSizeT := 8
  sizeofSizeT_ge := by decide
  duplicate := fun _ new => some new
  assertions := true
  handlerRegistries := []

/-- The allocations of one call of the callback. -/
inductive AllocPoint
  | requestLine
  | requestHeader
  | headerEntry (line : ℕ)
  | body
  | responseData (i : ℕ)
  | responseCallback
  deriving DecidableEq, Repr

/-- What can go wrong in one call of the callback. -/
structure Choices where
  oom : AllocPoint → Bool
  /-- What the `readAsync` or `writeAsync` at its end returns. -/
  submit : ExceptionPointer

/-- Nothing goes wrong. -/
def Choices.succeed : Choices where
  oom := fun _ => false
  submit := none

theorem succeed_oom (point : AllocPoint) : Choices.succeed.oom point = false := rfl

/-- The fields of an `HttpReadAsyncCallback`. A byte of `body` is `none` until it is written. -/
structure HttpReadAsyncCallback where
  parseStatus : HttpParseStatus := .initial
  requestLine : Bytes := []
  requestHeader : Bytes := []
  requestLineView : HttpRequestLineView := {}
  requestHeaderView : HttpRequestHeaderView := {}
  expectedBodySize : ℕ := 0
  transferEncoding : Bytes := []
  isChunked : Bool := false
  body : List (Option UInt8) := []
  deriving DecidableEq, Repr

/-- The operation a call of the callback posted. -/
inductive Posted
  /-- `readNext()`: another read into the buffer of the task. -/
  | read
  /-- A read into `body`. -/
  | body (size : ℕ)
  /-- The write of the response. -/
  | response (data : Bytes)
  deriving DecidableEq, Repr

/-- How a request was dispatched. -/
inductive Dispatch
  /-- To the handler for this method, with this state. -/
  | handler (method : Bytes) (state : HttpURLHandlerState)
  /-- Answered by the server itself. -/
  | status (status : HttpResponseStatus)
  deriving DecidableEq, Repr

/-- How a call of the callback ends, when the process goes on. -/
structure Result where
  e : ExceptionPointer
  reader : HttpReadAsyncCallback
  posted : Option Posted
  dispatch : Option Dispatch
  deriving DecidableEq, Repr

namespace HttpReadAsyncCallback

/-- A return without a posted operation. -/
def fails (reader : HttpReadAsyncCallback) (e : Exception) : Result :=
  { e := some e, reader := reader, posted := none, dispatch := none }

/-- A return with what `readAsync` returned. -/
def reads (reader : HttpReadAsyncCallback) (ch : Choices) (posted : Posted) : Result :=
  { e := ch.submit
    reader := reader
    posted := if ch.submit.isSome then none else some posted
    dispatch := none }

/-! ### The body state -/

/-- The parts of the request target. -/
structure Target where
  path : Bytes := []
  query : Bytes := []
  fragment : Bytes := []
  deriving DecidableEq, Repr

/-- The splitting of `rawPath`; nothing when the fragment comes before the query. -/
def splitTarget (rawPath : Bytes) : Except Terminate (Option Target) := do
  match find (text "#") rawPath, find (text "?") rawPath with
  | some offFragment, some offQuery =>
      if offFragment < offQuery then return none
      else
        let query ← substr rawPath offQuery (offFragment - offQuery)
        let fragment ← substrFrom rawPath offFragment
        let path ← substr rawPath 0 offQuery
        return some { path := path, query := query, fragment := fragment }
  | some offFragment, none =>
      let path ← substr rawPath 0 offFragment
      let fragment ← substrFrom rawPath offFragment
      return some { path := path, fragment := fragment }
  | none, some offQuery =>
      let path ← substr rawPath 0 offQuery
      let query ← substrFrom rawPath offQuery
      return some { path := path, query := query }
  | none, none => return some { path := rawPath }

/-- `writeResponse:`: the response is handed to a write callback and posted. -/
def respond (reader : HttpReadAsyncCallback) (ch : Choices) (state : HttpURLHandlerState)
    (dispatch : Dispatch) : Result :=
  if ch.oom .responseCallback then
    { e := some .outOfMemory, reader := reader, posted := none, dispatch := some dispatch }
  else
    { e := ch.submit
      reader := reader
      posted := if ch.submit.isSome then none else some (.response state.responseData)
      dispatch := some dispatch }

/-- The server answers itself. The exception pointer `writeResponse` returns is dropped. -/
def answer (reader : HttpReadAsyncCallback) (env : Env) (ch : Choices)
    (state : HttpURLHandlerState) (status : HttpResponseStatus) : Except Terminate Result := do
  let (e, state) ← state.writeResponse env.sizeofSizeT (fun i => ch.oom (.responseData i))
    status (text "text/plain") []
  if e.isSome && env.assertions then throw .unhandledException
  else return reader.respond ch state (.status status)

/-- `case HttpParseStatus::Body`. -/
def onBody (reader : HttpReadAsyncCallback) (env : Env) (ch : Choices) :
    Except Terminate Result :=
  if reader.isChunked then throw .chunked
  else do match ← splitTarget reader.requestLineView.path with
  | none =>
      reader.answer env ch
        { urlPath := [], urlQuery := [], urlFragment := [],
          requestHeaderView := reader.requestHeaderView } .badRequest
  | some target =>
      let state : HttpURLHandlerState :=
        { urlPath := target.path, urlQuery := target.query, urlFragment := target.fragment,
          requestHeaderView := reader.requestHeaderView }
      match env.handlerRegistries.lookup target.path with
      | none => reader.answer env ch state .notFound
      | some handlers =>
          match handlers.lookup reader.requestLineView.method with
          | none => reader.answer env ch state .methodNotAllowed
          | some handleURL =>
              let dispatch := Dispatch.handler reader.requestLineView.method state
              match handleURL state with
              | some e =>
                  return { e := some e, reader := reader, posted := none,
                           dispatch := some dispatch }
              | none => return reader.respond ch state dispatch

/-! ### The header state -/

/-- The loop over the digits of `Content-Length`; `none` is `std::terminate`. -/
def contentLength (sizeMax : ℕ) : ℕ → Bytes → Option ℕ
  | value, [] => some value
  | value, i :: rest =>
      if i < 48 ∨ 57 < i then none
      else if sizeMax / 10 < value then none
      else
        let value := value * 10 % (sizeMax + 1)
        let curDigit := i.toNat - 48
        if sizeMax - curDigit < value then none
        else contentLength sizeMax ((value + curDigit) % (sizeMax + 1)) rest

/-- `noContentLength:`: the body is awaited, if there is one. -/
def awaitBody (reader : HttpReadAsyncCallback) (env : Env) (ch : Choices) :
    Except Terminate Result :=
  let reader := { reader with parseStatus := .body }
  if reader.isChunked then throw .chunked
  else if reader.expectedBodySize ≠ 0 then
    return reader.reads ch (.body reader.expectedBodySize)
  else reader.onBody env ch

/-- The `Content-Length` header. -/
def onContentLength (reader : HttpReadAsyncCallback) (env : Env) (ch : Choices) :
    Except Terminate Result :=
  match reader.requestHeaderView.find (text "Content-Length") with
  | none => reader.awaitBody env ch
  | some value =>
      match contentLength env.sizeMax 0 value with
      | none => throw .contentLength
      | some n =>
          if ch.oom .body then return reader.fails .outOfMemory
          else
            { reader with
              body := reader.body.take n ++ List.replicate (n - reader.body.length) none
              expectedBodySize := n }.awaitBody env ch

/-- The header block is complete. -/
def onHeaderBlock (reader : HttpReadAsyncCallback) (env : Env) (ch : Choices) :
    Except Terminate Result := do
  match ← parseHttpRequestHeader env.duplicate (fun line => ch.oom (.headerEntry line))
      reader.requestHeader with
  | none => throw .requestHeader
  | some view =>
      let reader := { reader with requestHeaderView := view }
      match view.find (text "Transfer-Encoding") with
      | none => reader.onContentLength env ch
      | some value =>
          let reader := { reader with transferEncoding := value }
          if value = text "chunked" then
            let reader := { reader with isChunked := true }
            reader.awaitBody env ch
          else reader.onContentLength env ch

/-- `case HttpParseStatus::Header`. -/
def onHeader (reader : HttpReadAsyncCallback) (env : Env) (ch : Choices) (sv : Bytes) :
    Except Terminate Result := do
  match find blankLine sv with
  | some offSeparator =>
      let piece ← substr sv 0 (offSeparator + 2)
      if ch.oom .requestHeader then return reader.fails .outOfMemory
      else
        let _ ← substrFrom sv (offSeparator + 4)
        let reader := { reader with requestHeader := reader.requestHeader ++ piece }
        reader.onHeaderBlock env ch
  | none =>
      if ch.oom .requestHeader then return reader.fails .outOfMemory
      else
        let reader := { reader with requestHeader := reader.requestHeader ++ sv }
        match find blankLine reader.requestHeader with
        | none => return reader.reads ch .read
        | some _ => reader.onHeaderBlock env ch

/-! ### The initial state -/

/-- The request line is complete. -/
def onRequestLine (reader : HttpReadAsyncCallback) (env : Env) (ch : Choices) (sv : Bytes) :
    Except Terminate Result := do
  match ← parseHttpRequestLine reader.requestLine with
  | none => throw .requestLine
  | some view =>
      let reader := { reader with requestLineView := view, parseStatus := .header }
      reader.onHeader env ch sv

/-- `case HttpParseStatus::Initial`. -/
def onInitial (reader : HttpReadAsyncCallback) (env : Env) (ch : Choices) (sv : Bytes) :
    Except Terminate Result := do
  match find crlf sv with
  | some offSeparator =>
      let requestLineSv ← substr sv 0 offSeparator
      if ch.oom .requestLine then return reader.fails .outOfMemory
      else
        let reader := { reader with requestLine := reader.requestLine ++ requestLineSv }
        if sv.length ≤ offSeparator + 2 then return reader.reads ch .read
        else
          let sv ← substrFrom sv (offSeparator + 2)
          reader.onRequestLine env ch sv
  | none =>
      if ch.oom .requestLine then return reader.fails .outOfMemory
      else
        let reader := { reader with requestLine := reader.requestLine ++ sv }
        match find crlf reader.requestLine with
        | none => return reader.reads ch .read
        | some _ => reader.onRequestLine env ch sv

/-- `HttpReadAsyncCallback::onStatusChanged`: `sv` is what the task's buffer holds of the
bytes read. -/
def onStatusChanged (reader : HttpReadAsyncCallback) (env : Env) (ch : Choices)
    (status : AsyncTaskStatus) (sv : Bytes) : Except Terminate Result :=
  match status with
  | .done =>
      match reader.parseStatus with
      | .initial => reader.onInitial env ch sv
      | .header => reader.onHeader env ch sv
      | .body => reader.onBody env ch
  | _ => return { e := none, reader := reader, posted := none, dispatch := none }

/-- The kernel writes the bytes of a completed read to the front of `body`. -/
def receive (reader : HttpReadAsyncCallback) (bytes : Bytes) : HttpReadAsyncCallback :=
  { reader with body := bytes.map some ++ reader.body.drop bytes.length }

end HttpReadAsyncCallback

/-! ### Connections -/

/-- The buffer an outstanding read was posted on. -/
inductive Buffer
  /-- The buffer of the accept callback. -/
  | accept
  /-- The array `body` of the reader. -/
  | body
  deriving DecidableEq, Repr

/-- What there is of a request between two completions. -/
inductive Connection
  /-- A read is outstanding. -/
  | reading (reader : HttpReadAsyncCallback) (buffer : Buffer)
  /-- The write of the response is outstanding. -/
  | responding (reader : HttpReadAsyncCallback) (dispatch : Option Dispatch) (data : Bytes)
  /-- Nothing is outstanding: the callback returned this. -/
  | idle (reader : HttpReadAsyncCallback) (dispatch : Option Dispatch) (e : ExceptionPointer)
  /-- The process has ended. -/
  | terminated (why : Terminate)
  deriving DecidableEq, Repr

namespace Connection

/-- A connection as `onAccepted` leaves it: the first read is posted. -/
def fresh : Connection := .reading {} .accept

/-- The connection after a call of the callback. -/
def ofResult : Except Terminate Result → Connection
  | .error why => .terminated why
  | .ok result =>
      match result.posted with
      | some .read => .reading result.reader .accept
      | some (.body _) => .reading result.reader .body
      | some (.response data) => .responding result.reader result.dispatch data
      | none => .idle result.reader result.dispatch result.e

/-- What the kernel does to the connection when the outstanding read completes: the bytes go
to the buffer of the accept callback, which is not the connection's, or to `body`. -/
def arrive (conn : Connection) (bytes : Bytes) : Connection :=
  match conn with
  | .reading reader .body => .reading (reader.receive bytes) .body
  | .reading _ .accept | .responding _ _ _ | .idle _ _ _ | .terminated _ => conn

/-- The callback of the read that completed runs; it finds `sv` in the buffer of the task. -/
def call (env : Env) (ch : Choices) (conn : Connection) (sv : Bytes) : Connection :=
  match conn with
  | .reading reader _ => ofResult (reader.onStatusChanged env ch .done sv)
  | .responding _ _ _ | .idle _ _ _ | .terminated _ => conn

/-- The outstanding read completes with the bytes of `chunk`, and the callback runs. -/
def deliver (env : Env) (ch : Choices) (conn : Connection) (chunk : Bytes) : Connection :=
  (conn.arrive chunk).call env ch chunk

/-- A read that completes in the initial state is handled there. -/
theorem deliver_onInitial {env : Env} {ch : Choices} {reader : HttpReadAsyncCallback}
    {chunk : Bytes} (h : reader.parseStatus = .initial) :
    deliver env ch (.reading reader .accept) chunk =
      ofResult (reader.onInitial env ch chunk) := by
  simp only [deliver, arrive, call, HttpReadAsyncCallback.onStatusChanged, h]

/-- A request that comes in these chunks, when nothing goes wrong. -/
def feed (env : Env) (conn : Connection) (chunks : List Bytes) : Connection :=
  chunks.foldl (deliver env .succeed) conn

end Connection

/-! ### The parsing states when memory suffices -/

namespace HttpReadAsyncCallback

section

variable {ch : Choices} (hoom : ∀ point, ch.oom point = false)

include hoom

/-- When the chunk holds the end of the request line and more, the line is parsed and the rest
goes with it. -/
theorem onInitial_found {reader : HttpReadAsyncCallback} {env : Env} {sv : Bytes} {off : ℕ}
    (h : find crlf sv = some off) (hlt : off + 2 < sv.length) :
    reader.onInitial env ch sv =
      { reader with requestLine := reader.requestLine ++ sv.take off }.onRequestLine env ch
        (sv.drop (off + 2)) := by
  simp [onInitial, h, hoom, bind, Except.bind, Nat.not_le_of_lt hlt,
    substrFrom_of_le (Nat.le_of_lt hlt)]

/-- When the chunk ends with the end of the request line, another read is posted. -/
theorem onInitial_found_last {reader : HttpReadAsyncCallback} {env : Env} {sv : Bytes}
    {off : ℕ} (h : find crlf sv = some off) (hle : sv.length ≤ off + 2) :
    reader.onInitial env ch sv =
      .ok ({ reader with requestLine := reader.requestLine ++ sv.take off }.reads ch .read) := by
  simp [onInitial, h, hoom, bind, Except.bind, hle, pure, Except.pure]

/-- When the request line goes on behind the chunk, another read is posted. -/
theorem onInitial_missing {reader : HttpReadAsyncCallback} {env : Env} {sv : Bytes}
    (h : find crlf sv = none) (hall : find crlf (reader.requestLine ++ sv) = none) :
    reader.onInitial env ch sv =
      .ok ({ reader with requestLine := reader.requestLine ++ sv }.reads ch .read) := by
  simp [onInitial, h, hall, hoom, pure, Except.pure]

/-- When the chunk completes the end of the request line without holding all of it, the line is
parsed with the whole chunk in it. -/
theorem onInitial_across {reader : HttpReadAsyncCallback} {env : Env} {sv : Bytes} {off : ℕ}
    (h : find crlf sv = none) (hall : find crlf (reader.requestLine ++ sv) = some off) :
    reader.onInitial env ch sv =
      { reader with requestLine := reader.requestLine ++ sv }.onRequestLine env ch sv := by
  simp [onInitial, h, hall, hoom]

/-- When the chunk holds the blank line, the header block is complete up to the first line end
of it. -/
theorem onHeader_found {reader : HttpReadAsyncCallback} {env : Env} {sv : Bytes} {off : ℕ}
    (h : find blankLine sv = some off) :
    reader.onHeader env ch sv =
      { reader with requestHeader := reader.requestHeader ++ sv.take (off + 2) }.onHeaderBlock
        env ch := by
  have hle : off + 4 ≤ sv.length := (occursAt_of_find h).le (by decide)
  simp [onHeader, h, hoom, bind, Except.bind, hle]

/-- When the header block goes on behind the chunk, another read is posted. -/
theorem onHeader_missing {reader : HttpReadAsyncCallback} {env : Env} {sv : Bytes}
    (h : find blankLine sv = none) (hall : find blankLine (reader.requestHeader ++ sv) = none) :
    reader.onHeader env ch sv =
      .ok ({ reader with requestHeader := reader.requestHeader ++ sv }.reads ch .read) := by
  simp [onHeader, h, hall, hoom, pure, Except.pure]

/-- When the chunk completes the blank line without holding all of it, the header block is
complete with the whole chunk in it. -/
theorem onHeader_across {reader : HttpReadAsyncCallback} {env : Env} {sv : Bytes} {off : ℕ}
    (h : find blankLine sv = none)
    (hall : find blankLine (reader.requestHeader ++ sv) = some off) :
    reader.onHeader env ch sv =
      { reader with requestHeader := reader.requestHeader ++ sv }.onHeaderBlock env ch := by
  simp [onHeader, h, hall, hoom]

end

/-! ### The dispatch -/

/-- The splitting of the target throws nothing. -/
theorem splitTarget_ok (rawPath : Bytes) : ∃ target, splitTarget rawPath = .ok target := by
  rw [splitTarget]
  cases hf : find (text "#") rawPath with
  | none =>
      cases hq : find (text "?") rawPath with
      | none => exact ⟨_, rfl⟩
      | some offQuery =>
          have hle : offQuery + 1 ≤ rawPath.length := succ_le_of_find hq
          simp [bind, Except.bind, pure, Except.pure, Nat.le_of_succ_le hle]
  | some offFragment =>
      have hfle : offFragment + 1 ≤ rawPath.length := succ_le_of_find hf
      cases hq : find (text "?") rawPath with
      | none => simp [bind, Except.bind, pure, Except.pure, Nat.le_of_succ_le hfle]
      | some offQuery =>
          have hqle : offQuery + 1 ≤ rawPath.length := succ_le_of_find hq
          by_cases hlt : offFragment < offQuery
          · simp [hlt, pure, Except.pure]
          · simp [hlt, bind, Except.bind, pure, Except.pure, Nat.le_of_succ_le hfle,
              Nat.le_of_succ_le hqle]

/-- What the dispatch can do: the reader stays, and at most the response is posted. -/
structure Settles (reader : HttpReadAsyncCallback) (result : Result) : Prop where
  reader : result.reader = reader
  posted : result.posted = none ∨ ∃ data, result.posted = some (.response data)

/-- How the dispatch ends when nothing goes wrong: the request was dispatched. -/
structure Dispatched (reader : HttpReadAsyncCallback) (result : Result) : Prop
    extends reader.Settles result where
  dispatch : result.dispatch.isSome = true

theorem settles_respond (reader : HttpReadAsyncCallback) (ch : Choices)
    (state : HttpURLHandlerState) (dispatch : Dispatch) :
    reader.Settles (reader.respond ch state dispatch) := by
  rw [respond]
  split
  · exact ⟨rfl, .inl rfl⟩
  · refine ⟨rfl, ?_⟩
    dsimp only
    split
    · exact .inl rfl
    · exact .inr ⟨_, rfl⟩

/-- The response is prepared behind the dispatch. -/
theorem dispatched_respond (reader : HttpReadAsyncCallback) (ch : Choices)
    (state : HttpURLHandlerState) (dispatch : Dispatch) :
    reader.Dispatched (reader.respond ch state dispatch) := by
  refine ⟨settles_respond reader ch state dispatch, ?_⟩
  rw [respond]
  split
  · rfl
  · rfl

section

variable {ch : Choices} (hoom : ∀ point, ch.oom point = false)

include hoom

/-- An answer of the server itself is posted when nothing goes wrong. -/
theorem answer_succeed (reader : HttpReadAsyncCallback) (env : Env)
    {state : HttpURLHandlerState} (status : HttpResponseStatus)
    (hstage : state.stage = .statusLine) :
    ∃ result, reader.answer env ch state status = .ok result ∧
      reader.Dispatched result := by
  have hsize : 3 ≤ env.sizeofSizeT := Nat.le_of_succ_le env.sizeofSizeT_ge
  obtain ⟨state', hresponse⟩ : ∃ state', state.writeResponse env.sizeofSizeT (fun _ => false)
      status (text "text/plain") [] = .ok (none, state') :=
    ⟨_, HttpURLHandlerState.writeResponse_empty status (text "text/plain") hsize hstage⟩
  refine ⟨reader.respond ch state' (.status status), ?_, dispatched_respond _ _ _ _⟩
  simp only [answer, hoom, hresponse]
  rfl

/-- **The dispatch** never ends the process when memory suffices. -/
theorem onBody_succeed {reader : HttpReadAsyncCallback} (env : Env)
    (hchunked : reader.isChunked = false) :
    ∃ result, reader.onBody env ch = .ok result ∧ reader.Dispatched result := by
  obtain ⟨target, htarget⟩ := splitTarget_ok reader.requestLineView.path
  simp only [onBody, hchunked, htarget, bind, Except.bind, Bool.false_eq_true, if_false]
  cases target with
  | none => exact answer_succeed hoom reader env .badRequest rfl
  | some target =>
      cases hreg : env.handlerRegistries.lookup target.path with
      | none =>
          simp only [hreg]
          exact answer_succeed hoom reader env .notFound rfl
      | some handlers =>
          cases hhandler : handlers.lookup reader.requestLineView.method with
          | none =>
              simp only [hreg, hhandler]
              exact answer_succeed hoom reader env .methodNotAllowed rfl
          | some handleURL =>
              simp only [hreg, hhandler]
              cases handleURL _ with
              | none => exact ⟨_, rfl, dispatched_respond _ _ _ _⟩
              | some e => exact ⟨_, rfl, ⟨⟨rfl, .inl rfl⟩, rfl⟩⟩

/-! ### The header block when memory suffices -/

/-- The call goes on with `Content-Length` when the header block was parsed and names
no encoding. -/
theorem onHeaderBlock_parsed {reader : HttpReadAsyncCallback} {env : Env}
    {view : HttpRequestHeaderView}
    (hparse : parseHttpRequestHeader env.duplicate (fun _ => false) reader.requestHeader =
      .ok (some view))
    (hencoding : view.find (text "Transfer-Encoding") = none) :
    reader.onHeaderBlock env ch =
      { reader with requestHeaderView := view }.onContentLength env ch := by
  simp only [onHeaderBlock, hoom, hparse, hencoding, bind, Except.bind]

/-- A header block that cannot be parsed ends the process. -/
theorem onHeaderBlock_rejected {reader : HttpReadAsyncCallback} {env : Env}
    (hparse : parseHttpRequestHeader env.duplicate (fun _ => false) reader.requestHeader =
      .ok none) :
    reader.onHeaderBlock env ch = .error .requestHeader := by
  simp only [onHeaderBlock, hoom, hparse, bind, Except.bind]
  rfl

omit hoom in
/-- Without `Content-Length` the request is dispatched. -/
theorem onContentLength_none {reader : HttpReadAsyncCallback} {env : Env}
    (hlength : reader.requestHeaderView.find (text "Content-Length") = none)
    (hchunked : reader.isChunked = false) (hsize : reader.expectedBodySize = 0) :
    reader.onContentLength env ch = { reader with parseStatus := .body }.onBody env ch := by
  simp [onContentLength, hlength, awaitBody, hchunked, hsize]

/-- With `Content-Length` a read into the body is posted, which holds nothing yet. -/
theorem onContentLength_some {reader : HttpReadAsyncCallback} {env : Env} {value : Bytes}
    {n : ℕ} (hlength : reader.requestHeaderView.find (text "Content-Length") = some value)
    (hvalue : contentLength env.sizeMax 0 value = some n) (hn : 0 < n)
    (hchunked : reader.isChunked = false) (hbody : reader.body = []) :
    reader.onContentLength env ch =
      .ok ({ reader with
        parseStatus := .body
        body := List.replicate n none
        expectedBodySize := n }.reads ch (.body n)) := by
  simp [onContentLength, hlength, hvalue, awaitBody, hchunked, hbody, hoom, Nat.ne_of_gt hn, pure,
    Except.pure]

end

end HttpReadAsyncCallback

/-! ### What a call can do -/

/-- What holds of the result, if the process goes on. -/
def Returns (P : Result → Prop) : Except Terminate Result → Prop
  | .ok result => P result
  | .error _ => True

theorem Returns.imp {P Q : Result → Prop} {x : Except Terminate Result} (h : Returns P x)
    (himp : ∀ result, P result → Q result) : Returns Q x := by
  cases x with
  | error why => exact trivial
  | ok result => exact himp result h

theorem Returns.of_eq_ok {P : Result → Prop} {x : Except Terminate Result} {result : Result}
    (h : Returns P x) (hresult : x = .ok result) : P result := by
  subst hresult
  exact h

end Netknot.Http
