import Netknot.Except
import Netknot.Http.Parser

/-!
# Writing a Response

`HttpURLHandlerState`: the state a request handler is given, and the functions that write
the response into it, each of which may be called at one stage only. Every function returns
the exception pointer and the state it leaves.

`oom i` says that the `i`-th string operation of a call finds no memory. An operation that
fails leaves the string as it was; what the call appended before stays.

`sprintf` writes the length of the body and a NUL behind it into an array of
`sizeof(size_t) / 3 + 1` characters. A longer text overwrites the stack; the model ends the
process there.

## Main results

* `writeResponse_empty`: the response with an empty body that the server answers a request
  with which it cannot hand to a handler.
* `writeResponse_cases`: a response is complete if its string operations find memory, and
  otherwise does not reach the last stage.
-/

namespace Netknot.Http

/-- `HttpResponseStatus`. -/
inductive HttpResponseStatus
  | «continue» | switchingProtocols | processing | earlyHints | ok | created | accepted
  | nonAuthoritativeInformation | noContent | resetContent | partialContent | multiStatus
  | alreadyReported | imUsed | multipleChoice | movedPermanently | found | seeOther | notModified
  | useProxy | temporaryRedirect | permanentRedirect | badRequest | unauthorized
  | paymentRequired | forbidden | notFound | methodNotAllowed | notAcceptable
  | proxyAuthenticationRequired | requestTimeout | conflict | gone | lengthRequired
  | preconditionFailed | payloadTooLarge | uriTooLong | unsupportedMediaType
  | rangeNotSatisfiable | expectationFailed | imATeapot | misdirectedRequest
  | unprocessableEntity | locked | failedDependency | tooEarly | upgradeRequired
  | preconditionRequired | tooManyRequests | requestHeaderFieldsTooLarge
  | unavailableForLegalReasons | internalServerError | notImplemented | badGateway
  | serviceUnavailable | gatewayTimeout | httpVersionNotSupported | variantAlsoNegotiates
  | insufficientStorage | loopDetected | notExtended | networkAuthenticationRequired
  deriving DecidableEq, Repr

/-- `HttpServer::getHttpResponseMessage`. -/
def getHttpResponseMessage : HttpResponseStatus → Bytes
  | .«continue» => text "100 Continue"
  | .switchingProtocols => text "101 Switching Protocols"
  | .processing => text "102 Processing"
  | .earlyHints => text "103 Early Hints"
  | .ok => text "200 OK"
  | .created => text "201 Created"
  | .accepted => text "202 Accepted"
  | .nonAuthoritativeInformation => text "203 Non-Authoritative Information"
  | .noContent => text "204 No Content"
  | .resetContent => text "205 Reset Content"
  | .partialContent => text "206 Partial Content"
  | .multiStatus => text "207 Multi-Status"
  | .alreadyReported => text "208 Already Reported"
  | .imUsed => text "226 IM Used"
  | .multipleChoice => text "300 Multiple Choice"
  | .movedPermanently => text "301 Moved Permanently"
  | .found => text "302 Found"
  | .seeOther => text "303 See Other"
  | .notModified => text "304 Not Modified"
  | .useProxy => text "305 Use Proxy"
  | .temporaryRedirect => text "307 Temporary Redirect"
  | .permanentRedirect => text "308 Permanent Redirect"
  | .badRequest => text "400 Bad Request"
  | .unauthorized => text "401 Unauthorized"
  | .paymentRequired => text "402 Payment Required"
  | .forbidden => text "403 Forbidden"
  | .notFound => text "404 Not Found"
  | .methodNotAllowed => text "405 Method Not Allowed"
  | .notAcceptable => text "406 Not Acceptable"
  | .proxyAuthenticationRequired => text "407 Proxy Authentication Required"
  | .requestTimeout => text "408 Request Timeout"
  | .conflict => text "409 Conflict"
  | .gone => text "410 Gone"
  | .lengthRequired => text "411 Length Required"
  | .preconditionFailed => text "412 Precondition Failed"
  | .payloadTooLarge => text "413 Payload Too Large"
  | .uriTooLong => text "414 URI Too Long"
  | .unsupportedMediaType => text "415 Unsupported Media Type"
  | .rangeNotSatisfiable => text "416 Range Not Satisfiable"
  | .expectationFailed => text "417 Expectation Failed"
  | .imATeapot => text "418 I'm a teapot"
  | .misdirectedRequest => text "421 Misdirected Request"
  | .unprocessableEntity => text "422 Unprocessable Entity"
  | .locked => text "423 Locked"
  | .failedDependency => text "424 Failed Dependency"
  | .tooEarly => text "425 Too Early"
  | .upgradeRequired => text "426 Upgrade Required"
  | .preconditionRequired => text "428 Precondition Required"
  | .tooManyRequests => text "429 Too Many Requests"
  | .requestHeaderFieldsTooLarge => text "431 Request Header Fields Too Large"
  | .unavailableForLegalReasons => text "451 Unavailable For Legal Reasons"
  | .internalServerError => text "500 Internal Server Error"
  | .notImplemented => text "501 Not Implemented"
  | .badGateway => text "502 Bad Gateway"
  | .serviceUnavailable => text "503 Service Unavailable"
  | .gatewayTimeout => text "504 Gateway Timeout"
  | .httpVersionNotSupported => text "505 HTTP Version Not Supported"
  | .variantAlsoNegotiates => text "506 Variant Also Negotiates"
  | .insufficientStorage => text "507 Insufficient Storage"
  | .loopDetected => text "508 Loop Detected"
  | .notExtended => text "510 Not Extended"
  | .networkAuthenticationRequired => text "511 Netowkr Authentication Required"

/-- `HttpURLHandlerStateStage`. -/
inductive HttpURLHandlerStateStage
  | statusLine
  | responseHeaders
  | responseBody
  | ended
  deriving DecidableEq, Repr

/-- `HttpURLHandlerState`. -/
structure HttpURLHandlerState where
  urlPath : Bytes
  urlQuery : Bytes
  urlFragment : Bytes
  requestHeaderView : HttpRequestHeaderView
  responseData : Bytes := []
  stage : HttpURLHandlerStateStage := .statusLine
  deriving DecidableEq, Repr

/-- A run of `append`s, numbered from `i`: the string after the last that found memory, and
whether all did. -/
def appendAll (oom : ℕ → Bool) : ℕ → Bytes → List Bytes → Bytes × Bool
  | _, data, [] => (data, true)
  | i, data, piece :: pieces =>
      if oom i then (data, false) else appendAll oom (i + 1) (data ++ piece) pieces

/-- A run of `append`s succeeds if all its operations find memory. -/
theorem appendAll_cases (oom : ℕ → Bool) (i : ℕ) (data : Bytes) (pieces : List Bytes) :
    (∀ j < pieces.length, oom (j + i) = false) ∧
        appendAll oom i data pieces = (data ++ pieces.flatten, true) ∨
      (∃ j < pieces.length, oom (j + i) = true) ∧ (appendAll oom i data pieces).2 = false := by
  induction pieces generalizing i data with
  | nil => exact .inl ⟨fun j hj => absurd hj (Nat.not_lt_zero j), by simp [appendAll]⟩
  | cons piece pieces ih =>
      have hshift : ∀ j, j + 1 + i = j + (i + 1) := fun j => by omega
      cases hoom : oom i with
      | true => exact .inr ⟨⟨0, Nat.succ_pos _, by rwa [Nat.zero_add]⟩, by simp [appendAll, hoom]⟩
      | false =>
          have htail : appendAll oom i data (piece :: pieces) =
              appendAll oom (i + 1) (data ++ piece) pieces := by simp [appendAll, hoom]
          rw [htail]
          rcases ih (i + 1) (data ++ piece) with ⟨hall, heq⟩ | ⟨⟨j, hj, hfail⟩, heq⟩
          · refine .inl ⟨fun j hj => ?_, by rw [heq, List.append_assoc, List.flatten_cons]⟩
            cases j with
            | zero => rwa [Nat.zero_add]
            | succ j =>
                rw [hshift]
                exact hall j (Nat.lt_of_succ_lt_succ hj)
          · refine .inr ⟨⟨j + 1, Nat.succ_lt_succ hj, ?_⟩, heq⟩
            rw [hshift]
            exact hfail

namespace HttpURLHandlerState

/-- The `append`s of a `write` function, and the stage it moves on to when all succeed. -/
def write (state : HttpURLHandlerState) (oom : ℕ → Bool) (i : ℕ) (pieces : List Bytes)
    (next : HttpURLHandlerStateStage) : ExceptionPointer × HttpURLHandlerState :=
  let (data, succeeded) := appendAll oom i state.responseData pieces
  if succeeded then (none, { state with responseData := data, stage := next })
  else (some .outOfMemory, { state with responseData := data })

/-- `HttpURLHandlerState::writeStatusLine`: `build` replaces what the string held. -/
def writeStatusLine (state : HttpURLHandlerState) (oom : ℕ → Bool)
    (status : HttpResponseStatus) : Except Terminate (ExceptionPointer × HttpURLHandlerState) :=
  if state.stage ≠ .statusLine then .error .stage
  else if oom 0 then .ok (some .outOfMemory, state)
  else .ok ({ state with responseData := text "HTTP/1,1 " }.write oom 1
    [getHttpResponseMessage status, text "\r\n"] .responseHeaders)

/-- `HttpURLHandlerState::writeHeader`. -/
def writeHeader (state : HttpURLHandlerState) (oom : ℕ → Bool) (name value : Bytes) :
    Except Terminate (ExceptionPointer × HttpURLHandlerState) :=
  if state.stage ≠ .responseHeaders then .error .stage
  else .ok (state.write oom 0 [name, text ": ", value, text "\r\n"] .responseHeaders)

/-- `HttpURLHandlerState::endHeader`. -/
def endHeader (state : HttpURLHandlerState) (oom : ℕ → Bool) :
    Except Terminate (ExceptionPointer × HttpURLHandlerState) :=
  if state.stage ≠ .responseHeaders then .error .stage
  else .ok (state.write oom 0 [text "\r\n"] .responseBody)

/-- `HttpURLHandlerState::writeBody`. -/
def writeBody (state : HttpURLHandlerState) (oom : ℕ → Bool) (data : Bytes) :
    Except Terminate (ExceptionPointer × HttpURLHandlerState) :=
  if state.stage ≠ .responseBody then .error .stage
  else .ok (state.write oom 0 [data, text "\r\n"] .responseBody)

/-- `sprintf("%zu")`. -/
def decimal (n : ℕ) : Bytes := (Nat.toDigits 10 n).map fun c => c.toNat.toUInt8

/-- `HttpURLHandlerState::writeResponse`, where `size_t` has `sizeofSizeT` bytes. The string
operations are numbered through the calls it makes. -/
def writeResponse (sizeofSizeT : ℕ) (state : HttpURLHandlerState) (oom : ℕ → Bool)
    (status : HttpResponseStatus) (contentType body : Bytes) :
    Except Terminate (ExceptionPointer × HttpURLHandlerState) := do
  let (e, state) ← state.writeStatusLine oom status
  if e.isSome then return (e, state)
  let (e, state) ← state.writeHeader (fun i => oom (i + 3)) (text "Content-Type") contentType
  if e.isSome then return (e, state)
  let lenStr := decimal body.length
  if sizeofSizeT / 3 + 1 < lenStr.length + 1 then throw .bufferOverflow
  let (e, state) ← state.writeHeader (fun i => oom (i + 7)) (text "Content-Length") lenStr
  if e.isSome then return (e, state)
  let (e, state) ← state.endHeader fun i => oom (i + 11)
  if e.isSome then return (e, state)
  let (e, state) ← state.writeBody (fun i => oom (i + 12)) body
  if e.isSome then return (e, state)
  return (none, { state with stage := .ended })

/-- **The answer of the server itself**, when memory suffices: a complete response with an
empty body. -/
theorem writeResponse_empty {sizeofSizeT : ℕ} {state : HttpURLHandlerState}
    (status : HttpResponseStatus) (contentType : Bytes) (hsize : 3 ≤ sizeofSizeT)
    (hstage : state.stage = .statusLine) :
    state.writeResponse sizeofSizeT (fun _ => false) status contentType [] = .ok (none,
      { state with
        responseData := text "HTTP/1,1 " ++ getHttpResponseMessage status ++ text "\r\n" ++
          text "Content-Type" ++ text ": " ++ contentType ++ text "\r\n" ++
          text "Content-Length" ++ text ": " ++ text "0" ++ text "\r\n" ++ text "\r\n" ++
          [] ++ text "\r\n"
        stage := .ended }) := by
  have hzero : decimal 0 = text "0" := by decide
  have hlen : (text "0").length ≤ sizeofSizeT / 3 := by
    have hone : (text "0").length = 1 := by decide
    omega
  simp [writeResponse, writeStatusLine, writeHeader, endHeader, writeBody, write, appendAll,
    hstage, hzero, hlen, bind, Except.bind, pure, Except.pure]

/-! ### What the functions write -/

/-- **What a `write` function makes of its first `n` string operations**: when they find memory
the string holds `data` and the stage is `next`; otherwise it reports the failure and stays at
its stage. -/
def Writes (state : HttpURLHandlerState) (oom : ℕ → Bool) (n : ℕ) (data : Bytes)
    (next : HttpURLHandlerStateStage)
    (x : Except Terminate (ExceptionPointer × HttpURLHandlerState)) : Prop :=
  (∀ j < n, oom j = false) ∧
      x = .ok (none, { state with responseData := data, stage := next }) ∨
    (∃ j < n, oom j = true) ∧
      ∃ data', x = .ok (some .outOfMemory, { state with responseData := data' })

/-- The `append`s of a `write` function write its pieces. -/
theorem writes_write (state : HttpURLHandlerState) (oom : ℕ → Bool) (pieces : List Bytes)
    (next : HttpURLHandlerStateStage) :
    state.Writes oom pieces.length (state.responseData ++ pieces.flatten) next
      (.ok (state.write oom 0 pieces next)) := by
  rcases appendAll_cases oom 0 state.responseData pieces with ⟨hall, heq⟩ | ⟨hfail, heq⟩
  · refine .inl ⟨hall, ?_⟩
    simp only [write, heq, if_true]
  · refine .inr ⟨hfail, (appendAll oom 0 state.responseData pieces).1, ?_⟩
    simp only [write, heq, Bool.false_eq_true, if_false]

/-- A call of `writeStatusLine` at its stage appends the status line. -/
theorem writes_writeStatusLine {state : HttpURLHandlerState} (oom : ℕ → Bool)
    (status : HttpResponseStatus) (hstage : state.stage = .statusLine) :
    state.Writes oom 3 (text "HTTP/1,1 " ++ getHttpResponseMessage status ++ text "\r\n")
      .responseHeaders (state.writeStatusLine oom status) := by
  rw [writeStatusLine, if_neg (not_not.mpr hstage)]
  cases hbuild : oom 0 with
  | true => exact .inr ⟨⟨0, Nat.succ_pos _, hbuild⟩, state.responseData, by simp⟩
  | false =>
      rw [if_neg Bool.false_ne_true]
      rcases appendAll_cases oom 1 (text "HTTP/1,1 ")
        [getHttpResponseMessage status, text "\r\n"] with ⟨hall, heq⟩ | ⟨⟨j, hj, hfail⟩, heq⟩
      · refine .inl ⟨fun j hj => ?_, ?_⟩
        · cases j with
          | zero => exact hbuild
          | succ j => exact hall j (Nat.lt_of_succ_lt_succ hj)
        · simp [write, heq]
      · refine .inr ⟨⟨j + 1, Nat.succ_lt_succ hj, hfail⟩, (appendAll oom 1 (text "HTTP/1,1 ")
          [getHttpResponseMessage status, text "\r\n"]).1, ?_⟩
        simp only [write, heq, Bool.false_eq_true, if_false]

/-- A call of `writeHeader` at its stage appends a header line. -/
theorem writes_writeHeader {state : HttpURLHandlerState} (oom : ℕ → Bool) (name value : Bytes)
    (hstage : state.stage = .responseHeaders) :
    state.Writes oom 4 (state.responseData ++ [name, text ": ", value, text "\r\n"].flatten)
      .responseHeaders (state.writeHeader oom name value) := by
  rw [writeHeader, if_neg (not_not.mpr hstage)]
  exact writes_write state oom [name, text ": ", value, text "\r\n"] .responseHeaders

/-- A call of `endHeader` at its stage appends the blank line. -/
theorem writes_endHeader {state : HttpURLHandlerState} (oom : ℕ → Bool)
    (hstage : state.stage = .responseHeaders) :
    state.Writes oom 1 (state.responseData ++ [text "\r\n"].flatten) .responseBody
      (state.endHeader oom) := by
  rw [endHeader, if_neg (not_not.mpr hstage)]
  exact writes_write state oom [text "\r\n"] .responseBody

/-- A call of `writeBody` at its stage appends the body. -/
theorem writes_writeBody {state : HttpURLHandlerState} (oom : ℕ → Bool) (data : Bytes)
    (hstage : state.stage = .responseBody) :
    state.Writes oom 2 (state.responseData ++ [data, text "\r\n"].flatten) .responseBody
      (state.writeBody oom data) := by
  rw [writeBody, if_neg (not_not.mpr hstage)]
  exact writes_write state oom [data, text "\r\n"] .responseBody

/-- A failure is passed on, and otherwise the next `write` function is called. -/
theorem Writes.next {state : HttpURLHandlerState} {oom : ℕ → Bool} {n : ℕ} {data : Bytes}
    {stage : HttpURLHandlerStateStage}
    {x : Except Terminate (ExceptionPointer × HttpURLHandlerState)}
    {f : ExceptionPointer × HttpURLHandlerState →
      Except Terminate (ExceptionPointer × HttpURLHandlerState)}
    {e : ExceptionPointer} {state' : HttpURLHandlerState} (hx : state.Writes oom n data stage x)
    (h : (x >>= f) = .ok (e, state')) (hf : ∀ e s, f (some e, s) = .ok (some e, s)) :
    (∀ j < n, oom j = false) ∧
        f (none, { state with responseData := data, stage := stage }) = .ok (e, state') ∨
      (∃ j < n, oom j = true) ∧ e = some .outOfMemory ∧ state'.stage = state.stage := by
  rcases hx with ⟨hall, rfl⟩ | ⟨hfail, data', rfl⟩
  · exact .inl ⟨hall, h⟩
  · have heq := (hf _ _).symm.trans h
    obtain ⟨rfl, rfl⟩ := Prod.mk.inj (Except.ok.inj heq)
    exact .inr ⟨hfail, rfl, rfl⟩

/-- The text of a response. -/
def responseText (status : HttpResponseStatus) (contentType body : Bytes) : Bytes :=
  text "HTTP/1,1 " ++ getHttpResponseMessage status ++ text "\r\n" ++
    [text "Content-Type", text ": ", contentType, text "\r\n"].flatten ++
    [text "Content-Length", text ": ", decimal body.length, text "\r\n"].flatten ++
    [text "\r\n"].flatten ++ [body, text "\r\n"].flatten

/-- **When a response is complete**: all its string operations find memory. -/
theorem writeResponse_cases {sizeofSizeT : ℕ} {state state' : HttpURLHandlerState}
    {oom : ℕ → Bool} {status : HttpResponseStatus} {contentType body : Bytes}
    {e : ExceptionPointer} (hstage : state.stage = .statusLine)
    (h : state.writeResponse sizeofSizeT oom status contentType body = .ok (e, state')) :
    (∀ j < 14, oom j = false) ∧ state' =
        { state with responseData := responseText status contentType body, stage := .ended } ∨
      (∃ j < 14, oom j = true) ∧ e = some .outOfMemory ∧ state'.stage ≠ .ended := by
  rw [writeResponse] at h
  have hearly : ∀ {stage : HttpURLHandlerStateStage}, stage ≠ .ended → ∀ {n k : ℕ}, n + k ≤ 14 →
      ((∃ j < n, oom (j + k) = true) ∧ e = some .outOfMemory ∧ state'.stage = stage) →
        (∃ j < 14, oom j = true) ∧ e = some .outOfMemory ∧ state'.stage ≠ .ended := by
    rintro stage hne n k hle ⟨⟨j, hj, hfail⟩, he, hkept⟩
    exact ⟨⟨j + k, by omega, hfail⟩, he, hkept ▸ hne⟩
  rcases (writes_writeStatusLine oom status hstage).next h fun _ _ => rfl with ⟨h0, h⟩ | hfail
  case inr =>
    rw [hstage] at hfail
    exact .inr (hearly (n := 3) (k := 0) HttpURLHandlerStateStage.noConfusion (by omega) hfail)
  simp only [Option.isSome_none, Bool.false_eq_true, if_false] at h
  rcases (writes_writeHeader (fun i => oom (i + 3)) _ _ rfl).next h fun _ _ => rfl with
    ⟨h3, h⟩ | hfail
  case inr => exact .inr (hearly HttpURLHandlerStateStage.noConfusion (by omega) hfail)
  simp only [Option.isSome_none, Bool.false_eq_true, if_false] at h
  split at h
  · cases h
  rcases (writes_writeHeader (fun i => oom (i + 7)) _ _ rfl).next h fun _ _ => rfl with
    ⟨h7, h⟩ | hfail
  case inr => exact .inr (hearly HttpURLHandlerStateStage.noConfusion (by omega) hfail)
  simp only [Option.isSome_none, Bool.false_eq_true, if_false] at h
  rcases (writes_endHeader (fun i => oom (i + 11)) rfl).next h fun _ _ => rfl with ⟨h11, h⟩ | hfail
  case inr => exact .inr (hearly HttpURLHandlerStateStage.noConfusion (by omega) hfail)
  simp only [Option.isSome_none, Bool.false_eq_true, if_false] at h
  rcases (writes_writeBody (fun i => oom (i + 12)) _ rfl).next h fun _ _ => rfl with
    ⟨h12, h⟩ | hfail
  case inr => exact .inr (hearly HttpURLHandlerStateStage.noConfusion (by omega) hfail)
  simp only [Option.isSome_none, Bool.false_eq_true, if_false] at h
  obtain ⟨-, rfl⟩ := Prod.mk.inj (Except.ok.inj h)
  refine .inl ⟨fun j hj => ?_, rfl⟩
  have hshift : ∀ {n k : ℕ}, (∀ i < n, oom (i + k) = false) → k ≤ j → j < n + k →
      oom j = false := by
    intro n k hall hle hlt
    have hj' := hall (j - k) (by omega)
    rwa [Nat.sub_add_cancel hle] at hj'
  rcases Nat.lt_or_ge j 3 with hlt | hge
  · exact h0 j hlt
  rcases Nat.lt_or_ge j 7 with hlt | hge
  · exact hshift h3 (by omega) hlt
  rcases Nat.lt_or_ge j 11 with hlt | hge
  · exact hshift h7 (by omega) hlt
  rcases Nat.lt_or_ge j 12 with hlt | hge
  · exact hshift h11 (by omega) hlt
  · exact hshift h12 hge hj

/-- **A response without an exception holds** its status line, its header lines, the blank line
and its body. -/
theorem responseData_of_writeResponse {sizeofSizeT : ℕ} {state state' : HttpURLHandlerState}
    {oom : ℕ → Bool} {status : HttpResponseStatus} {contentType body : Bytes}
    (h : state.writeResponse sizeofSizeT oom status contentType body = .ok (none, state')) :
    state'.responseData = responseText status contentType body := by
  have hstage : state.stage = .statusLine := by
    by_contra hne
    simp [writeResponse, writeStatusLine, hne, bind, Except.bind] at h
  rcases writeResponse_cases hstage h with ⟨-, rfl⟩ | ⟨-, he, -⟩
  · rfl
  · cases he

end HttpURLHandlerState

end Netknot.Http
