import Netknot.Http.Response
import Netknot.Lib.Lines

/-!
# Reading a Response Back

A client of the server reads a response by its frame: a status line with the version token it
knows, a code and a reason; header lines, up to an empty one; and as many bytes of a body as
`Content-Length` says. What is behind them belongs to the next response. `readResponse` is
this client, and `frame` is what a response looks like that it reads back.

`writeResponse` writes another version token than it should, and a line end behind the body
that `Content-Length` does not count.

## Main results

* `readDecimal_decimal`: a number that was printed is read back.
* `readResponse_frame`: a response in its frame is read back, and nothing else is consumed.
* `responseText_eq_frame`: a response of `writeResponse` is one in its frame, with a line end
  behind it.
* `response_not_read`: so there is no version token with which it is read back.
-/

namespace Netknot.Http

open Search HttpURLHandlerState

/-- The number of a status. -/
def HttpResponseStatus.code : HttpResponseStatus → ℕ
  | .«continue» => 100
  | .switchingProtocols => 101
  | .processing => 102
  | .earlyHints => 103
  | .ok => 200
  | .created => 201
  | .accepted => 202
  | .nonAuthoritativeInformation => 203
  | .noContent => 204
  | .resetContent => 205
  | .partialContent => 206
  | .multiStatus => 207
  | .alreadyReported => 208
  | .imUsed => 226
  | .multipleChoice => 300
  | .movedPermanently => 301
  | .found => 302
  | .seeOther => 303
  | .notModified => 304
  | .useProxy => 305
  | .temporaryRedirect => 307
  | .permanentRedirect => 308
  | .badRequest => 400
  | .unauthorized => 401
  | .paymentRequired => 402
  | .forbidden => 403
  | .notFound => 404
  | .methodNotAllowed => 405
  | .notAcceptable => 406
  | .proxyAuthenticationRequired => 407
  | .requestTimeout => 408
  | .conflict => 409
  | .gone => 410
  | .lengthRequired => 411
  | .preconditionFailed => 412
  | .payloadTooLarge => 413
  | .uriTooLong => 414
  | .unsupportedMediaType => 415
  | .rangeNotSatisfiable => 416
  | .expectationFailed => 417
  | .imATeapot => 418
  | .misdirectedRequest => 421
  | .unprocessableEntity => 422
  | .locked => 423
  | .failedDependency => 424
  | .tooEarly => 425
  | .upgradeRequired => 426
  | .preconditionRequired => 428
  | .tooManyRequests => 429
  | .requestHeaderFieldsTooLarge => 431
  | .unavailableForLegalReasons => 451
  | .internalServerError => 500
  | .notImplemented => 501
  | .badGateway => 502
  | .serviceUnavailable => 503
  | .gatewayTimeout => 504
  | .httpVersionNotSupported => 505
  | .variantAlsoNegotiates => 506
  | .insufficientStorage => 507
  | .loopDetected => 508
  | .notExtended => 510
  | .networkAuthenticationRequired => 511

/-! ### Decimal numbers -/

/-- One more digit of a number. -/
def addDigit (n : ℕ) (digit : UInt8) : Option ℕ :=
  if 48 ≤ digit ∧ digit ≤ 57 then some (n * 10 + (digit.toNat - 48)) else none

/-- The number of a text of digits. -/
def readDecimal (s : Bytes) : Option ℕ := if s = [] then none else s.foldlM addDigit 0

/-- One digit is printed. -/
theorem decimal_of_lt {n : ℕ} (h : n < 10) : decimal n = [n.digitChar.toNat.toUInt8] := by
  rw [decimal, Nat.toDigits_of_lt_base h]
  rfl

/-- The last digit is printed last. -/
theorem decimal_of_ge {n : ℕ} (h : 10 ≤ n) : decimal n = decimal (n / 10) ++ decimal (n % 10) := by
  have hmod : n % 10 < 10 := Nat.mod_lt n (by decide)
  rw [decimal, Nat.toDigits_of_base_le (by decide) h, List.map_append, decimal_of_lt hmod]
  rfl

/-- One digit is read back. -/
theorem addDigit_digitChar {n : ℕ} (h : n < 10) (m : ℕ) :
    addDigit m n.digitChar.toNat.toUInt8 = some (m * 10 + n) := by
  have hdigit : ∀ n < 10, 48 ≤ n.digitChar.toNat.toUInt8 ∧ n.digitChar.toNat.toUInt8 ≤ 57 ∧
      n.digitChar.toNat.toUInt8.toNat - 48 = n := by decide
  obtain ⟨hge, hle, hvalue⟩ := hdigit n h
  rw [addDigit, if_pos ⟨hge, hle⟩, hvalue]

/-- The digits of a number are read back. -/
theorem foldlM_decimal (n : ℕ) : (decimal n).foldlM addDigit 0 = some n := by
  induction n using Nat.strong_induction_on with
  | _ n ih =>
      rcases Nat.lt_or_ge n 10 with hlt | hge
      · rw [decimal_of_lt hlt, List.foldlM_cons, addDigit_digitChar hlt, Nat.zero_mul, Nat.zero_add]
        rfl
      · have hmod : n % 10 < 10 := Nat.mod_lt n (by decide)
        have hsum : n / 10 * 10 + n % 10 = n := by omega
        rw [decimal_of_ge hge, List.foldlM_append, ih (n / 10) (by omega), decimal_of_lt hmod]
        change (addDigit (n / 10) _).bind _ = _
        rw [addDigit_digitChar hmod, Option.bind_some, hsum]
        rfl

/-- What is printed is not empty. -/
theorem decimal_ne_nil (n : ℕ) : decimal n ≠ [] := by
  intro hnil
  rcases Nat.lt_or_ge n 10 with hlt | hge
  · rw [decimal_of_lt hlt] at hnil
    cases hnil
  · rw [decimal_of_ge hge, decimal_of_lt (Nat.mod_lt n (by decide))] at hnil
    exact List.cons_ne_nil _ _ (List.append_eq_nil_iff.mp hnil).2

/-- **A number that was printed is read back.** -/
theorem readDecimal_decimal (n : ℕ) : readDecimal (decimal n) = some n := by
  rw [readDecimal, if_neg (decimal_ne_nil n), foldlM_decimal]

/-- What is printed are digits. -/
theorem digit_of_mem_decimal {n : ℕ} {c : UInt8} (h : c ∈ decimal n) : 48 ≤ c ∧ c ≤ 57 := by
  have hread : ∀ (s : Bytes) (m k : ℕ), s.foldlM addDigit m = some k → ∀ c ∈ s,
      48 ≤ c ∧ c ≤ 57 := by
    intro s
    induction s with
    | nil => exact fun m k _ c hc => absurd hc List.not_mem_nil
    | cons d s ih =>
        intro m k hread c hc
        rw [List.foldlM_cons] at hread
        obtain ⟨m', hd, hrest⟩ := Option.bind_eq_some_iff.mp hread
        rw [addDigit] at hd
        split at hd
        · rename_i hdigit
          rcases List.mem_cons.mp hc with rfl | hc
          · exact hdigit
          · exact ih m' k hrest c hc
        · cases hd
  exact hread _ 0 n (foldlM_decimal n) c h

/-! ### The client -/

/-- What a client makes of a response. -/
structure ClientResponse where
  code : ℕ
  reason : Bytes
  headers : List (Bytes × Bytes)
  body : Bytes
  deriving DecidableEq, Repr

/-- The **status line**: the version token, the code and the reason. -/
def readStatusLine (version line : Bytes) : Option (ℕ × Bytes) := do
  let (first, line) ← cut [32] line
  if first ≠ version then none
  else
    let (code, reason) ← cut [32] line
    let code ← readDecimal code
    return (code, reason)

/-- A **header line**: the name, and the value behind the colon and a space. -/
def readHeader (line : Bytes) : Option (Bytes × Bytes) := do
  let (name, value) ← cut [58] line
  return (name, if value.head? = some 32 then value.tail else value)

/-- The header lines up to the empty one. The first argument bounds their number. -/
def readHeaders : ℕ → Bytes → Option (List (Bytes × Bytes) × Bytes)
  | 0, _ => none
  | turns + 1, s => do
      let (line, s) ← cut crlf s
      if line = [] then return ([], s)
      else
        let header ← readHeader line
        let (headers, s) ← readHeaders turns s
        return (header :: headers, s)

/-- **The client**: the response at the front of `s`, and what is behind it. There are no more
header lines than bytes. -/
def readResponse (version s : Bytes) : Option (ClientResponse × Bytes) := do
  let (line, s) ← cut crlf s
  let (code, reason) ← readStatusLine version line
  let (headers, s) ← readHeaders s.length s
  let length ← headers.lookup (text "Content-Length")
  let length ← readDecimal length
  if s.length < length then none
  else return ({ code := code, reason := reason, headers := headers, body := s.take length },
    s.drop length)

/-! ### A response in its frame -/

/-- The header lines. -/
def headerLines (headers : List (Bytes × Bytes)) : Bytes :=
  headers.flatMap fun header => header.1 ++ 58 :: 32 :: header.2 ++ crlf

/-- **The frame** of a response. -/
def frame (version : Bytes) (response : ClientResponse) : Bytes :=
  version ++ 32 :: (decimal response.code ++ 32 :: response.reason) ++ crlf ++
    headerLines response.headers ++ crlf ++ response.body

/-- What fits into a frame: the separators do not occur where they would be taken for
separators, and the length of the body is declared. -/
structure Framed (version : Bytes) (response : ClientResponse) : Prop where
  version_space : 32 ∉ version
  version_cr : 13 ∉ version
  reason_cr : 13 ∉ response.reason
  name_colon : ∀ header ∈ response.headers, 58 ∉ header.1
  name_cr : ∀ header ∈ response.headers, 13 ∉ header.1
  value_cr : ∀ header ∈ response.headers, 13 ∉ header.2
  length : response.headers.lookup (text "Content-Length") = some (decimal response.body.length)

/-- One byte ends a text that does not hold it. -/
theorem cut_singleton {c : UInt8} {t : Bytes} (h : c ∉ t) (r : Bytes) :
    cut [c] (t ++ c :: r) = some (t, r) := by
  have hends : Ends [c] t := ends_of_notMem h
  exact hends.cut_append r

/-- A line that holds no carriage return is cut off. -/
theorem cut_line {line : Bytes} (h : 13 ∉ line) (r : Bytes) :
    cut crlf (line ++ (crlf ++ r)) = some (line, r) := by
  have hends : Ends crlf line := by
    rw [crlf_eq]
    exact ends_of_notMem h
  exact hends.cut_append r

/-- The status line is read back. -/
theorem readStatusLine_frame {version reason : Bytes} (hversion : 32 ∉ version) (code : ℕ) :
    readStatusLine version (version ++ 32 :: (decimal code ++ 32 :: reason)) =
      some (code, reason) := by
  have hcode : 32 ∉ decimal code := fun hmem =>
    absurd (digit_of_mem_decimal hmem).1 (by decide)
  rw [readStatusLine, cut_singleton hversion]
  simp [cut_singleton hcode, readDecimal_decimal]

/-- A header line is read back. -/
theorem readHeader_line {name : Bytes} (hname : 58 ∉ name) (value : Bytes) :
    readHeader (name ++ 58 :: 32 :: value) = some (name, value) := by
  rw [readHeader, cut_singleton hname]
  rfl

/-- **The header lines are read back**, up to the empty line. -/
theorem readHeaders_headerLines {headers : List (Bytes × Bytes)} {turns : ℕ} (rest : Bytes)
    (hturns : headers.length < turns) (hcolon : ∀ header ∈ headers, 58 ∉ header.1)
    (hname : ∀ header ∈ headers, 13 ∉ header.1) (hvalue : ∀ header ∈ headers, 13 ∉ header.2) :
    readHeaders turns (headerLines headers ++ (crlf ++ rest)) = some (headers, rest) := by
  induction headers generalizing turns with
  | nil =>
      obtain ⟨turns, rfl⟩ := Nat.exists_eq_succ_of_ne_zero (Nat.ne_of_gt hturns)
      have hempty : cut crlf (crlf ++ rest) = some ([], rest) :=
        @cut_line [] List.not_mem_nil rest
      simp [readHeaders, headerLines, hempty]
  | cons header headers ih =>
      obtain ⟨turns, rfl⟩ := Nat.exists_eq_succ_of_ne_zero (Nat.ne_of_gt (Nat.zero_lt_of_lt hturns))
      obtain ⟨name, value⟩ := header
      have hcr : 13 ∉ name ++ 58 :: 32 :: value := by
        simp only [List.mem_append, List.mem_cons, not_or]
        exact ⟨hname _ List.mem_cons_self, by decide, by decide, hvalue _ List.mem_cons_self⟩
      have htail : readHeaders turns (headerLines headers ++ (crlf ++ rest)) =
          some (headers, rest) :=
        ih (Nat.lt_of_succ_lt_succ hturns) (fun h hh => hcolon h (List.mem_cons_of_mem _ hh))
          (fun h hh => hname h (List.mem_cons_of_mem _ hh))
          fun h hh => hvalue h (List.mem_cons_of_mem _ hh)
      have hsplit : headerLines ((name, value) :: headers) ++ (crlf ++ rest) =
          (name ++ 58 :: 32 :: value) ++ (crlf ++ (headerLines headers ++ (crlf ++ rest))) := by
        simp [headerLines]
      have hne : name ++ 58 :: 32 :: value ≠ [] :=
        List.append_ne_nil_of_right_ne_nil _ (List.cons_ne_nil _ _)
      rw [hsplit, readHeaders, cut_line hcr]
      simp only [bind, Option.bind, hne, if_false,
        readHeader_line (hcolon _ List.mem_cons_self) value, htail]
      rfl

/-- There are no more header lines than bytes in them. -/
theorem length_le_headerLines (headers : List (Bytes × Bytes)) :
    headers.length ≤ (headerLines headers).length := by
  induction headers with
  | nil => exact Nat.zero_le _
  | cons header headers ih =>
      have hcons : headerLines (header :: headers) =
          header.1 ++ 58 :: 32 :: header.2 ++ crlf ++ headerLines headers := rfl
      rw [hcons]
      simp only [List.length_append, List.length_cons]
      omega

/-- The status line is cut off a frame. -/
theorem Framed.cut_crlf {version : Bytes} {response : ClientResponse}
    (h : Framed version response) (rest : Bytes) :
    cut crlf (frame version response ++ rest) =
      some (version ++ 32 :: (decimal response.code ++ 32 :: response.reason),
        headerLines response.headers ++ (crlf ++ (response.body ++ rest))) := by
  have hline : 13 ∉ version ++ 32 :: (decimal response.code ++ 32 :: response.reason) := by
    simp only [List.mem_append, List.mem_cons, not_or]
    exact ⟨h.version_cr, by decide, fun hmem => absurd (digit_of_mem_decimal hmem).1 (by decide),
      by decide, h.reason_cr⟩
  have hsplit : frame version response ++ rest =
      (version ++ 32 :: (decimal response.code ++ 32 :: response.reason)) ++
        (crlf ++ (headerLines response.headers ++ (crlf ++ (response.body ++ rest)))) := by
    simp [frame]
  rw [hsplit, cut_line hline]

/-- **A response in its frame is read back**, and what is behind it stays. -/
theorem readResponse_frame {version : Bytes} {response : ClientResponse}
    (h : Framed version response) (rest : Bytes) :
    readResponse version (frame version response ++ rest) = some (response, rest) := by
  have hturns : response.headers.length <
      (headerLines response.headers ++ (crlf ++ (response.body ++ rest))).length := by
    have hle := length_le_headerLines response.headers
    have hcrlf : crlf.length = 2 := by decide
    simp only [List.length_append]
    omega
  have hheaders := readHeaders_headerLines (response.body ++ rest) hturns h.name_colon h.name_cr
    h.value_cr
  rw [readResponse, h.cut_crlf]
  simp only [bind, Option.bind, readStatusLine_frame h.version_space, hheaders, h.length,
    readDecimal_decimal]
  simp

/-- **A response with another version token** is rejected at its status line. -/
theorem readResponse_frame_of_ne {version version' : Bytes} {response : ClientResponse}
    (h : Framed version response) (hne : version ≠ version') (rest : Bytes) :
    readResponse version' (frame version response ++ rest) = none := by
  rw [readResponse, h.cut_crlf]
  simp only [bind, Option.bind, readStatusLine, cut_singleton h.version_space, ne_eq, hne,
    not_false_eq_true, if_true]

/-! ### What the server writes -/

/-- What a client should make of a response of the server. -/
def sent (status : HttpResponseStatus) (contentType body : Bytes) : ClientResponse where
  code := status.code
  reason := (getHttpResponseMessage status).drop 4
  headers := [(text "Content-Type", contentType), (text "Content-Length", decimal body.length)]
  body := body

/-- **Every status message** starts with the code of its status, and holds no line end. -/
theorem getHttpResponseMessage_eq (status : HttpResponseStatus) :
    getHttpResponseMessage status =
        decimal status.code ++ 32 :: (getHttpResponseMessage status).drop 4 ∧
      13 ∉ getHttpResponseMessage status := by
  cases status <;> decide +kernel

/-- **The text of a response** is the response in a frame, with the version token `HTTP/1,1`, and
a line end behind it. -/
theorem responseText_eq_frame (status : HttpResponseStatus) (contentType body : Bytes) :
    HttpURLHandlerState.responseText status contentType body =
      frame (text "HTTP/1,1") (sent status contentType body) ++ crlf := by
  have hversion : text "HTTP/1,1 " = text "HTTP/1,1" ++ [32] := by decide
  have hcolon : text ": " = [58, 32] := by decide
  rw [HttpURLHandlerState.responseText, hversion, (getHttpResponseMessage_eq status).1, hcolon]
  simp [frame, headerLines, sent, crlf]

/-- What the server sends fits into a frame. -/
theorem framed_sent (status : HttpResponseStatus) {contentType : Bytes} (body : Bytes)
    (hcr : 13 ∉ contentType) : Framed (text "HTTP/1,1") (sent status contentType body) := by
  have hheaders : ∀ header ∈ (sent status contentType body).headers,
      header = (text "Content-Type", contentType) ∨
        header = (text "Content-Length", decimal body.length) := fun header hmem => by
    simpa only [sent, List.mem_cons, List.not_mem_nil, or_false] using hmem
  have htype : 58 ∉ text "Content-Type" ∧ 13 ∉ text "Content-Type" := by decide
  have hlength : 58 ∉ text "Content-Length" ∧ 13 ∉ text "Content-Length" := by decide
  refine ⟨by decide, by decide, ?_, ?_, ?_, ?_, ?_⟩
  · exact fun hmem => (getHttpResponseMessage_eq status).2 (List.mem_of_mem_drop hmem)
  · intro header hmem
    rcases hheaders header hmem with rfl | rfl
    · exact htype.1
    · exact hlength.1
  · intro header hmem
    rcases hheaders header hmem with rfl | rfl
    · exact htype.2
    · exact hlength.2
  · intro header hmem
    rcases hheaders header hmem with rfl | rfl
    · exact hcr
    · exact fun hdigit => absurd (digit_of_mem_decimal hdigit).1 (by decide)
  · have hother : (text "Content-Length" == text "Content-Type") = false := by decide
    rw [sent, List.lookup_cons, hother]
    exact List.lookup_cons_self

/-- **A client that takes the version token** as it is written reads the response back, and a
line end is left over. -/
theorem readResponse_writeResponse {sizeofSizeT : ℕ} {state state' : HttpURLHandlerState}
    {oom : ℕ → Bool} {status : HttpResponseStatus} {contentType body : Bytes}
    (hcr : 13 ∉ contentType)
    (h : state.writeResponse sizeofSizeT oom status contentType body = .ok (none, state')) :
    readResponse (text "HTTP/1,1") state'.responseData =
      some (sent status contentType body, crlf) := by
  rw [responseData_of_writeResponse h, responseText_eq_frame]
  exact readResponse_frame (framed_sent status body hcr) crlf

/-- **No response is read back**: whatever version token the client takes, it does not get what
was sent with nothing left over. -/
theorem response_not_read {sizeofSizeT : ℕ} {state state' : HttpURLHandlerState}
    {oom : ℕ → Bool} {status : HttpResponseStatus} {contentType body : Bytes}
    (hcr : 13 ∉ contentType)
    (h : state.writeResponse sizeofSizeT oom status contentType body = .ok (none, state'))
    (version : Bytes) :
    readResponse version state'.responseData ≠ some (sent status contentType body, []) := by
  by_cases hversion : version = text "HTTP/1,1"
  · subst hversion
    rw [readResponse_writeResponse hcr h]
    intro heq
    exact crlf_ne_nil (Prod.mk.inj (Option.some.inj heq)).2
  · rw [responseData_of_writeResponse h, responseText_eq_frame,
      readResponse_frame_of_ne (framed_sent status body hcr) (Ne.symm hversion)]
    exact (Option.some_ne_none _).symm

/-- The state of a handler before it writes, with an empty target. -/
def HttpURLHandlerState.bare : HttpURLHandlerState where
  urlPath := []
  urlQuery := []
  urlFragment := []
  requestHeaderView := {}

/-- The response to a request for a greeting is not read back by a client with the
token `HTTP/1.1`. -/
theorem response_not_read_hi :
    ∃ state', bare.writeResponse 8 (fun _ => false) .ok (text "text/plain") (text "hi") =
        .ok (none, state') ∧
      readResponse (text "HTTP/1.1") state'.responseData ≠
        some (sent .ok (text "text/plain") (text "hi"), []) := by
  obtain ⟨state', hresponse⟩ : ∃ state', bare.writeResponse 8 (fun _ => false) .ok
      (text "text/plain") (text "hi") = .ok (none, state') := ⟨_, rfl⟩
  exact ⟨state', hresponse, response_not_read (by decide) hresponse _⟩

/-- A client with the token `HTTP/1.1` gets nothing. -/
theorem readResponse_hi :
    ∃ state', bare.writeResponse 8 (fun _ => false) .ok (text "text/plain") (text "hi") =
        .ok (none, state') ∧ readResponse (text "HTTP/1.1") state'.responseData = none :=
  ⟨_, rfl, by decide⟩

end Netknot.Http
