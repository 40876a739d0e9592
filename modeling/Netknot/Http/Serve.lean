import Netknot.Http.Request
import Netknot.Http.Routing
import Netknot.Http.ContentLength
import Netknot.Http.Body
import Netknot.Http.SharedBuffer

/-!
# What Becomes of a Request

From the bytes of a head to the bytes of the answer. `Request.answer` is what the server owes
a request: it is computed from the request line, the headers and the registered handlers, and
mentions no buffer, no state of the reader and no search. `Request.Leaves` says what is left
of a connection when the head came in: the answer is on its way, or a body is awaited, behind
which the same answer follows whatever the body is, or the process has ended.

## Main results

* `ofResult_onBody`: the dispatch gives the answer.
* `proceeds_onContentLength`, `leaves_onHeaderBlock`: the header state, by what the headers
  announce.
* `leaves_of_delivers`: a head whose cuts do no harm leaves what its request says.
* `requests_answered`: on a server with any number of connections.
* `terminated_iff`: which heads end the process.
* `trailing_dropped`: what comes behind a head in the same read is lost.
-/

namespace Netknot.Http

open Search

/-! ### The answer to a request -/

/-- The parts of a target that is not rejected. -/
def targetParts (rawPath : Bytes) : HttpReadAsyncCallback.Target where
  path := pathPart rawPath
  query := (rawPath.drop (pathPart rawPath).length).takeWhile fun c => decide (c ≠ 35)
  fragment := (rawPath.drop (pathPart rawPath).length).dropWhile fun c => decide (c ≠ 35)

/-- The partition of a target is its parts. -/
theorem HttpReadAsyncCallback.Partition.eq_targetParts {rawPath : Bytes}
    {target : HttpReadAsyncCallback.Target}
    (h : HttpReadAsyncCallback.Partition rawPath target) : target = targetParts rawPath := by
  have hrest : rawPath.drop (pathPart rawPath).length = target.query ++ target.fragment := by
    rw [← h.path_eq, ← h.whole, List.append_assoc, List.drop_left]
  have hquery : target.query = (targetParts rawPath).query := by
    rw [targetParts, hrest]
    exact h.query_eq
  have hfragment : target.fragment = (targetParts rawPath).fragment := by
    have happend : (targetParts rawPath).query ++ (targetParts rawPath).fragment =
        target.query ++ target.fragment := List.takeWhile_append_dropWhile.trans hrest
    rw [← hquery] at happend
    exact (List.append_cancel_left happend).symm
  obtain ⟨path, query, fragment⟩ := target
  have hpath := h.path_eq
  dsimp only at hpath hquery hfragment
  rw [hpath, hquery, hfragment]
  rfl

/-- How a request goes on behind its head. -/
inductive Framing
  /-- It ends there. -/
  | complete
  /-- A body of `n` bytes follows. -/
  | body (n : ℕ)
  /-- The process ends. -/
  | ends (why : Terminate)
  deriving DecidableEq, Repr

/-- **What the headers announce.** -/
def framing (env : Env) (view : HttpRequestHeaderView) : Framing :=
  if view.find (text "Transfer-Encoding") = some (text "chunked") then .ends .chunked
  else match view.find (text "Content-Length") with
    | none => .complete
    | some value =>
        if AllDigits value ∧ decimalValue value ≤ env.sizeMax then
          if decimalValue value = 0 then .complete else .body (decimalValue value)
        else .ends .contentLength

/-- An answer of the server itself. -/
def statusAnswer (status : HttpResponseStatus) : Dispatch × Except Exception Bytes :=
  (.status status, .ok (HttpURLHandlerState.responseText status (text "text/plain") []))

namespace Request

/-- The table of the headers; nothing when they cannot all be inserted. -/
def view (env : Env) (r : Request) : Option HttpRequestHeaderView :=
  HttpRequestHeaderView.insertAll env.duplicate {} r.fields

/-- The state a handler of the request gets. -/
def state (r : Request) (view : HttpRequestHeaderView) : HttpURLHandlerState :=
  { urlPath := (targetParts r.line.path).path
    urlQuery := (targetParts r.line.path).query
    urlFragment := (targetParts r.line.path).fragment
    requestHeaderView := view }

/-- **The answer to a request**: how it is dispatched, and the bytes that are sent or the
exception of its handler. The handler writes nothing, since it cannot change the state. -/
def answer (env : Env) (r : Request) (view : HttpRequestHeaderView) :
    Dispatch × Except Exception Bytes :=
  if HttpReadAsyncCallback.FragmentFirst r.line.path then statusAnswer .badRequest
  else match route env.handlerRegistries (pathPart r.line.path) r.line.method with
    | .notFound => statusAnswer .notFound
    | .methodNotAllowed => statusAnswer .methodNotAllowed
    | .handler handleURL =>
        (.handler r.line.method (r.state view),
          match handleURL (r.state view) with
          | some e => .error e
          | none => .ok [])

end Request

/-- The connection of a request that was answered. -/
def Connection.answered (reader : HttpReadAsyncCallback) :
    Dispatch × Except Exception Bytes → Connection
  | (dispatch, .ok data) => .responding reader (some dispatch) data
  | (dispatch, .error e) => .idle reader (some dispatch) (some e)

/-- What is left of a connection behind the headers, by what they announce. -/
def Request.Proceeds (env : Env) (r : Request) (view : HttpRequestHeaderView) (conn : Connection) :
    Framing → Prop
  | .complete => ∃ reader : HttpReadAsyncCallback,
      reader.requestLineView = r.line ∧ conn = .answered reader (r.answer env view)
  | .body n => ∃ reader : HttpReadAsyncCallback,
      reader.requestLineView = r.line ∧ reader.body = List.replicate n none ∧
        conn = .reading reader .body ∧
        ∀ bytes, conn.deliver env .succeed bytes =
          .answered (reader.receive bytes) (r.answer env view)
  | .ends why => conn = .terminated why

/-- **What is left of a connection** when the head of the request came in. -/
def Request.Leaves (env : Env) (r : Request) (conn : Connection) : Prop :=
  if r.fields = [] then ∃ reader, conn = .reading reader .accept
  else match r.view env with
    | none => conn = .terminated .requestHeader
    | some view => r.Proceeds env view conn (framing env view)

section

variable {env : Env} {r : Request} {view : HttpRequestHeaderView}
  {reader : HttpReadAsyncCallback}

/-! ### The body state -/

/-- An answered connection was dispatched, so that nothing changes it any more. -/
theorem feed_answered (answer : Dispatch × Except Exception Bytes) (chunks : List Bytes) :
    Connection.feed env (.answered reader answer) chunks = .answered reader answer := by
  obtain ⟨dispatch, data | e⟩ := answer
  · exact feed_of_dispatched chunks rfl
  · exact feed_of_dispatched chunks rfl

/-- A connection is answered when the server answers by itself. -/
theorem ofResult_answer {state : HttpURLHandlerState} (status : HttpResponseStatus)
    (hstage : state.stage = .statusLine) :
    Connection.ofResult (reader.answer env .succeed state status) =
      .answered reader (statusAnswer status) := by
  have hsize : 3 ≤ env.sizeofSizeT := Nat.le_of_succ_le env.sizeofSizeT_ge
  obtain ⟨state', hwrite⟩ : ∃ state', state.writeResponse env.sizeofSizeT (fun _ => false) status
      (text "text/plain") [] = .ok (none, state') :=
    ⟨_, HttpURLHandlerState.writeResponse_empty status (text "text/plain") hsize hstage⟩
  have hdata := HttpURLHandlerState.responseData_of_writeResponse hwrite
  simp only [HttpReadAsyncCallback.answer, succeed_oom, hwrite, bind, Except.bind]
  rw [statusAnswer, Connection.answered, ← hdata]
  rfl

/-- **The dispatch gives the answer.** -/
theorem ofResult_onBody (hchunked : reader.isChunked = false)
    (hline : reader.requestLineView = r.line) (hview : reader.requestHeaderView = view) :
    Connection.ofResult (reader.onBody env .succeed) =
      .answered reader (r.answer env view) := by
  rcases HttpReadAsyncCallback.splitTarget_cases reader.requestLineView.path with
    ⟨hfirst, htarget⟩ | ⟨hnot, target, htarget, hpartition⟩
  · rw [HttpReadAsyncCallback.onBody_of_rejected hchunked htarget, Request.answer,
      if_pos (hline ▸ hfirst)]
    exact ofResult_answer .badRequest rfl
  · have hstate : reader.stateFor target = r.state view := by
      rw [hpartition.eq_targetParts, HttpReadAsyncCallback.stateFor, Request.state, hline, hview]
    rw [onBody_eq htarget, hchunked, if_neg Bool.false_ne_true, Request.answer,
      if_neg (hline ▸ hnot), ← hline]
    cases route env.handlerRegistries (pathPart reader.requestLineView.path)
        reader.requestLineView.method with
    | notFound => exact ofResult_answer .notFound rfl
    | methodNotAllowed => exact ofResult_answer .methodNotAllowed rfl
    | handler handleURL =>
        simp only [HttpReadAsyncCallback.follow, hstate]
        cases handleURL (r.state view) with
        | none => rfl
        | some e => rfl

/-! ### The header state -/

/-- The dispatch behind the headers leaves the answer to the request. -/
theorem proceeds_complete (hchunked : reader.isChunked = false)
    (hline : reader.requestLineView = r.line) (hview : reader.requestHeaderView = view) :
    r.Proceeds env view (.ofResult ({ reader with parseStatus := .body }.onBody env .succeed))
      .complete :=
  ⟨{ reader with parseStatus := .body }, hline,
    @ofResult_onBody env r view { reader with parseStatus := .body } hchunked hline hview⟩

/-- When the headers do not name chunks, the call proceeds as what they announce says. -/
theorem proceeds_onContentLength
    (hencoding : view.find (text "Transfer-Encoding") ≠ some (text "chunked"))
    (hchunked : reader.isChunked = false) (hsize : reader.expectedBodySize = 0)
    (hbody : reader.body = []) (hline : reader.requestLineView = r.line)
    (hview : reader.requestHeaderView = view) :
    r.Proceeds env view (Connection.ofResult (reader.onContentLength env .succeed))
      (framing env view) := by
  rw [framing, if_neg hencoding]
  cases hlength : view.find (text "Content-Length") with
  | none =>
      rw [HttpReadAsyncCallback.onContentLength_none (hview ▸ hlength) hchunked hsize]
      exact proceeds_complete hchunked hline hview
  | some value =>
      have hvalue := HttpReadAsyncCallback.contentLength_zero env value
      dsimp only
      split
      · rename_i hnumber
        rw [if_pos hnumber] at hvalue
        split
        · rename_i hzero
          -- a length of zero is no length
          rw [hzero] at hvalue
          have hcall : reader.onContentLength env .succeed =
              { reader with parseStatus := .body }.onBody env .succeed := by
            obtain ⟨parseStatus, requestLine, requestHeader, requestLineView, requestHeaderView,
              expectedBodySize, transferEncoding, isChunked, body⟩ := reader
            dsimp only at hchunked hsize hbody hview
            subst hchunked hsize hbody hview
            simp [HttpReadAsyncCallback.onContentLength, hlength, hvalue, succeed_oom,
              HttpReadAsyncCallback.awaitBody]
          rw [hcall]
          exact proceeds_complete hchunked hline hview
        · rename_i hpos
          rw [HttpReadAsyncCallback.onContentLength_some succeed_oom (hview ▸ hlength) hvalue
            (Nat.pos_of_ne_zero hpos) hchunked hbody]
          let waiting : HttpReadAsyncCallback :=
            { reader with
              parseStatus := .body
              body := List.replicate (decimalValue value) none
              expectedBodySize := decimalValue value }
          refine ⟨waiting, hline, rfl, rfl, fun bytes => ?_⟩
          exact (deliver_body bytes rfl).trans
            (@ofResult_onBody env r view (waiting.receive bytes) hchunked hline hview)
      · rename_i hnumber
        rw [if_neg hnumber] at hvalue
        have hcall : reader.onContentLength env .succeed = .error .contentLength := by
          simp only [HttpReadAsyncCallback.onContentLength, hview, hlength, hvalue]
          rfl
        rw [hcall]
        rfl

/-- **A complete header block** leaves what the request says. -/
theorem leaves_onHeaderBlock (hne : r.fields ≠ [])
    (hparse : parseHttpRequestHeader env.duplicate (fun _ => false) reader.requestHeader =
      .ok (r.view env))
    (hchunked : reader.isChunked = false) (hsize : reader.expectedBodySize = 0)
    (hbody : reader.body = []) (hline : reader.requestLineView = r.line) :
    r.Leaves env (.ofResult (reader.onHeaderBlock env .succeed)) := by
  rw [Request.Leaves, if_neg hne]
  cases hview : r.view env with
  | none =>
      rw [hview] at hparse
      rw [HttpReadAsyncCallback.onHeaderBlock_rejected succeed_oom hparse]
      rfl
  | some view =>
      rw [hview] at hparse
      simp only [HttpReadAsyncCallback.onHeaderBlock, succeed_oom, hparse, bind, Except.bind]
      cases hencoding : view.find (text "Transfer-Encoding") with
      | none =>
          refine proceeds_onContentLength ?_ hchunked hsize hbody hline rfl
          rw [hencoding]
          exact Option.some_ne_none _ |>.symm
      | some value =>
          dsimp only
          by_cases hvalue : value = text "chunked"
          · rw [if_pos hvalue, framing, if_pos (hvalue ▸ hencoding)]
            rfl
          · rw [if_neg hvalue]
            refine proceeds_onContentLength ?_ hchunked hsize hbody hline rfl
            rw [hencoding]
            exact fun heq => hvalue (Option.some.inj heq)

/-! ### Whole deliveries -/

/-- The two parsers read the request from a text that spells it. -/
theorem Request.Spells.parses {s : Bytes} (h : r.Spells s) :
    parseHttpRequestLine (s.take r.line.line.length) = .ok (some r.line) ∧
      parseHttpRequestHeader env.duplicate (fun _ => false)
        (slice s (r.line.line.length + 2) (s.length - 2)) = .ok (r.view env) := by
  obtain ⟨-, htake, hpieces, -⟩ := h.shape
  exact ⟨parseHttpRequestLine_iff.mpr ⟨htake.symm, h.method_space, h.path_space⟩,
    headerLoop_of_pieces_eq hpieces 0 {}⟩

/-- **A head leaves what its request says**, when no cut of it does harm. -/
theorem leaves_of_delivers {s : Bytes} {chunks : List Bytes} (h : r.Spells s)
    (hchunks : Delivers chunks s) (hcuts : ∀ k ∈ cuts chunks, Harmless env s k) :
    r.Leaves env (Connection.feed env .fresh chunks) := by
  obtain ⟨hfind, -, -, hshort⟩ := h.shape
  obtain ⟨hline, hheader⟩ := @Request.Spells.parses env r s h
  obtain ⟨p, hp, hshape⟩ := exists_lineEnd h.blank
  obtain rfl : r.line.line.length = p := Option.some.inj (hfind.symm.trans hp)
  rw [feed_of_harmless h.blank hp hchunks hcuts]
  by_cases hnil : r.fields = []
  · have hlength := hshort.mp hnil
    rw [Request.Leaves, if_pos hnil, progress_of_lt (by omega) (.inr hlength)]
    simp only [behindLine, hline]
    exact ⟨_, rfl⟩
  · rw [progress_end (hshape.resolve_left fun hlength => hnil (hshort.mpr hlength))]
    simp only [behindLine, hline]
    exact leaves_onHeaderBlock hnil hheader rfl rfl rfl rfl

/-! ### Heads that end the process -/

/-- **What the server does not survive** of a request it can parse: headers it cannot all keep,
a chunked body, or a length that is no number of the machine. -/
def Request.Fatal (env : Env) (r : Request) : Prop :=
  r.fields ≠ [] ∧ ∀ view ∈ r.view env,
    view.find (text "Transfer-Encoding") = some (text "chunked") ∨
      ∃ value, view.find (text "Content-Length") = some value ∧
        ¬(AllDigits value ∧ decimalValue value ≤ env.sizeMax)

/-- The headers of a request end the process if and only if they announce chunks, or a length that
is no number or too large. -/
theorem framing_ends_iff : (∃ why, framing env view = .ends why) ↔
    view.find (text "Transfer-Encoding") = some (text "chunked") ∨
      ∃ value, view.find (text "Content-Length") = some value ∧
        ¬(AllDigits value ∧ decimalValue value ≤ env.sizeMax) := by
  rw [framing]
  split
  · rename_i hencoding
    exact iff_of_true ⟨_, rfl⟩ (.inl hencoding)
  · rename_i hencoding
    rw [or_iff_right hencoding]
    cases hlength : view.find (text "Content-Length") with
    | none => exact iff_of_false (fun ⟨_, h⟩ => by cases h) fun ⟨_, h, _⟩ => by cases h
    | some value =>
        dsimp only
        split
        · rename_i hnumber
          refine iff_of_false ?_ ?_
          · rintro ⟨why, h⟩
            split at h
            · cases h
            · cases h
          · rintro ⟨value', hvalue, hnot⟩
            obtain rfl := Option.some.inj hvalue
            exact hnot hnumber
        · rename_i hnumber
          exact iff_of_true ⟨_, rfl⟩ ⟨value, rfl, hnumber⟩

/-- A request that was answered did not end the process. -/
theorem answered_ne_terminated (answer : Dispatch × Except Exception Bytes) (why : Terminate) :
    Connection.answered reader answer ≠ .terminated why := by
  obtain ⟨dispatch, data | e⟩ := answer
  · exact Connection.noConfusion
  · exact Connection.noConfusion

/-- **A request that is left behind** ended the process, or did not. -/
theorem Request.Leaves.process_ends_iff {conn : Connection} (h : r.Leaves env conn) :
    (∃ why, conn = .terminated why) ↔ r.Fatal env := by
  rw [Request.Leaves] at h
  rw [Request.Fatal]
  by_cases hnil : r.fields = []
  · rw [if_pos hnil] at h
    obtain ⟨reader, rfl⟩ := h
    exact iff_of_false (fun ⟨_, h⟩ => by cases h) fun hfatal => hfatal.1 hnil
  · rw [if_neg hnil] at h
    rw [and_iff_right hnil]
    cases hview : r.view env with
    | none =>
        rw [hview] at h
        exact iff_of_true ⟨_, h⟩ fun view hmem => by cases hmem
    | some view =>
        rw [hview] at h
        dsimp only at h
        simp only [Option.mem_def, Option.some.injEq, forall_eq', ← framing_ends_iff]
        cases hframing : framing env view with
        | complete =>
            rw [hframing] at h
            obtain ⟨reader, -, rfl⟩ := h
            exact iff_of_false (fun ⟨why, h⟩ => answered_ne_terminated _ why h)
              fun ⟨_, h⟩ => by cases h
        | body n =>
            rw [hframing] at h
            obtain ⟨reader, -, -, rfl, -⟩ := h
            exact iff_of_false (fun ⟨_, h⟩ => by cases h) fun ⟨_, h⟩ => by cases h
        | ends why =>
            rw [hframing] at h
            exact iff_of_true ⟨_, h⟩ ⟨_, rfl⟩

/-- **Which heads end the process**: of the texts with a blank line at their end, those that
spell no request, and those whose request the server does not survive. Nothing behind the
headers does, whatever the target is. -/
theorem terminated_iff {s : Bytes} {chunks : List Bytes} (hs : OnlyAtEnd blankLine s)
    (hchunks : Delivers chunks s) (hcuts : ∀ k ∈ cuts chunks, Harmless env s k) :
    (∃ why, Connection.feed env .fresh chunks = .terminated why) ↔
      (¬∃ r : Request, r.Spells s) ∨ ∃ r : Request, r.Spells s ∧ r.Fatal env := by
  obtain ⟨p, hp, hshape⟩ := exists_lineEnd hs
  rcases spells_or hs hp hshape with ⟨r, hr⟩ | ⟨hnot, hparse⟩
  · rw [(leaves_of_delivers hr hchunks hcuts).process_ends_iff]
    constructor
    · exact fun hfatal => .inr ⟨r, hr, hfatal⟩
    · rintro (hnot | ⟨r', hr', hfatal⟩)
      · exact absurd ⟨r, hr⟩ hnot
      · exact hr.unique hr' ▸ hfatal
  · refine iff_of_true ?_ (.inl hnot)
    rw [feed_of_harmless hs hp hchunks hcuts]
    rcases hparse with hline | ⟨⟨view, hline⟩, hlong, hpieces⟩
    · refine ⟨.requestLine, ?_⟩
      rcases hshape with hshort | hlong
      · rw [progress_of_lt (by omega) (.inr hshort)]
        simp only [behindLine, hline]
      · rw [progress_end hlong]
        simp only [behindLine, hline]
    · refine ⟨.requestHeader, ?_⟩
      rw [progress_end hlong]
      simp only [behindLine, hline]
      rw [HttpReadAsyncCallback.onHeaderBlock_rejected succeed_oom
        (parseHttpRequestHeader_none hpieces)]
      rfl

/-! ### What comes behind a head -/

/-- The header state drops what stands behind the blank line. -/
theorem HttpReadAsyncCallback.onHeader_append {sv : Bytes} {off : ℕ}
    (h : find blankLine sv = some off) (t : Bytes) :
    reader.onHeader env .succeed (sv ++ t) = reader.onHeader env .succeed sv := by
  have hle : off + 2 ≤ sv.length := by
    have hfour : off + 4 ≤ sv.length := (occursAt_of_find h).le (by decide)
    omega
  rw [onHeader_found succeed_oom (find_append_of_eq_some t h), onHeader_found succeed_oom h,
    List.take_append_of_le_length hle]

/-- So does the initial state, when the blank line comes with the request line. -/
theorem HttpReadAsyncCallback.onInitial_append {sv : Bytes} {off off' : ℕ}
    (h : find crlf sv = some off) (hlt : off + 2 < sv.length)
    (hblank : find blankLine (sv.drop (off + 2)) = some off') (t : Bytes) :
    reader.onInitial env .succeed (sv ++ t) = reader.onInitial env .succeed sv := by
  have hlt' : off + 2 < (sv ++ t).length := by
    rw [List.length_append]
    omega
  rw [onInitial_found succeed_oom (find_append_of_eq_some t h) hlt',
    onInitial_found succeed_oom h hlt, List.take_append_of_le_length (by omega),
    List.drop_append_of_le_length (Nat.le_of_lt hlt), onRequestLine, onRequestLine]
  congr 1
  funext found
  cases found with
  | none => rfl
  | some view => exact onHeader_append hblank t

/-- **The last read of a head** may bring more. -/
theorem deliver_append {s : Bytes} {p k : ℕ} (hs : OnlyAtEnd blankLine s)
    (hp : find crlf s = some p) (hk : k ≠ p + 1 ∧ k ≠ p + 2) (hlong : p + 6 ≤ s.length)
    (hlast : k + 4 ≤ s.length) (t : Bytes) :
    Connection.deliver env .succeed (progress env s p k) (slice s k s.length ++ t) =
      Connection.deliver env .succeed (progress env s p k) (slice s k s.length) := by
  have hfour : blankLine.length = 4 := rfl
  have hblank : ∀ i, i + 4 ≤ s.length →
      find blankLine (slice s i s.length) = some (s.length - 4 - i) := by
    intro i hi
    rw [find_slice (by decide) (find_of_onlyAtEnd hs) (by rw [hfour]; omega),
      if_pos (by rw [hfour]; omega), hfour]
  by_cases hkp : k ≤ p
  · have hline : find crlf (slice s k s.length) = some (p - k) := by
      rw [find_slice (by decide) hp hkp, if_pos (by simp [crlf, text]; omega)]
    have hrest : (slice s k s.length).drop (p - k + 2) = slice s (p + 2) s.length := by
      rw [drop_slice, show k + (p - k + 2) = p + 2 by omega]
    rw [progress_of_le (by omega), Connection.deliver_onInitial rfl,
      Connection.deliver_onInitial rfl, HttpReadAsyncCallback.onInitial_append hline
        (by rw [length_slice]; omega) (by rw [hrest]; exact hblank _ (by omega))]
  · rw [progress_of_lt (by omega) (.inl (by omega)), deliver_behindLine, deliver_behindLine]
    congr 1
    funext view
    exact congrArg Connection.ofResult (HttpReadAsyncCallback.onHeader_append (hblank k hlast) t)

/-- **A header block that is refused** is refused with what comes behind it, when the last read
does not hold the whole blank line. -/
theorem deliver_refused {s : Bytes} {p k : ℕ} {view : HttpRequestLineView}
    (hs : OnlyAtEnd blankLine s) (hk : p + 2 < k) (hks : k < s.length)
    (hlong : p + 6 ≤ s.length) (hlast : s.length < k + 4)
    (hline : parseHttpRequestLine (s.take p) = .ok (some view))
    (hrefused : ∀ u, parseHttpRequestHeader env.duplicate (fun _ => false)
      (slice s (p + 2) (s.length - 2) ++ u) = .ok none) (t : Bytes) :
    Connection.deliver env .succeed (progress env s p k) (slice s k s.length ++ t) =
      .terminated .requestHeader := by
  have hfour : blankLine.length = 4 := rfl
  have hblock : ∀ m, s.length - 2 - k ≤ m →
      slice s (p + 2) (s.length - 2) <+:
        slice s (p + 2) k ++ (slice s k s.length ++ t).take m := by
    intro m hm
    have hwhole : slice s (p + 2) k ++ (slice s k s.length ++ t) =
        slice s (p + 2) s.length ++ t := by
      rw [← List.append_assoc, slice_append_slice s (by omega) (by omega)]
    have hfront : slice s (p + 2) (s.length - 2) <+: slice s (p + 2) s.length ++ t := by
      rw [← slice_append_slice s (by omega : p + 2 ≤ s.length - 2) (Nat.sub_le _ _),
        List.append_assoc]
      exact List.prefix_append _ _
    refine List.prefix_of_prefix_length_le hfront ?_ ?_
    · rw [← hwhole]
      exact (List.prefix_append_right_inj _).mpr (List.take_prefix _ _)
    · simp only [List.length_append, List.length_take, length_slice]
      omega
  have hends : ∀ block, slice s (p + 2) (s.length - 2) <+: block →
      Connection.ofResult ({ headReader s p view k with requestHeader := block }.onHeaderBlock
        env .succeed) = .terminated .requestHeader := by
    rintro block ⟨u, rfl⟩
    rw [HttpReadAsyncCallback.onHeaderBlock_rejected succeed_oom (hrefused u)]
    rfl
  have hdeliver : Connection.deliver env .succeed (progress env s p k) (slice s k s.length ++ t) =
      .ofResult ((headReader s p view k).onHeader env .succeed (slice s k s.length ++ t)) := by
    rw [progress_of_lt (by omega) (.inl hks), deliver_behindLine]
    simp only [behindLine, hline]
    rfl
  rw [hdeliver]
  cases hfind : find blankLine (slice s k s.length ++ t) with
  | some off =>
      rw [HttpReadAsyncCallback.onHeader_found succeed_oom hfind]
      exact hends _ (hblock _ (by omega))
  | none =>
      have hall : find blankLine ((headReader s p view k).requestHeader ++
          (slice s k s.length ++ t)) = some (s.length - 4 - (p + 2)) := by
        change find blankLine (slice s (p + 2) k ++ (slice s k s.length ++ t)) = _
        rw [← List.append_assoc, slice_append_slice s (by omega) (by omega)]
        refine find_append_of_eq_some t ?_
        rw [find_slice (by decide) (find_of_onlyAtEnd hs) (by rw [hfour]; omega),
          if_pos (by rw [hfour]; omega), hfour]
      rw [HttpReadAsyncCallback.onHeader_across succeed_oom hfind hall]
      refine hends _ ?_
      have hwhole := hblock (slice s k s.length ++ t).length
        (by rw [List.length_append, length_slice]; omega)
      rwa [List.take_length] at hwhole

/-- The last read of a head finds the connection where the bytes before it left it. -/
theorem feed_concat_append {s chunk : Bytes} {part : List Bytes} (h : r.Spells s)
    (hne : r.fields ≠ []) (hchunks : Delivers (part ++ [chunk]) s)
    (hcuts : ∀ k ∈ cuts (part ++ [chunk]), Harmless env s k) (t : Bytes) :
    Connection.feed env .fresh (part ++ [chunk ++ t]) =
      Connection.feed env .fresh (part ++ [chunk]) := by
  obtain ⟨hfind, -, -, hshort⟩ := h.shape
  obtain ⟨p, hp, hshape⟩ := exists_lineEnd h.blank
  obtain rfl : r.line.line.length = p := Option.some.inj (hfind.symm.trans hp)
  have hlong := hshape.resolve_left fun hlength => hne (hshort.mpr hlength)
  obtain ⟨hflatten, hnonempty⟩ := hchunks
  have hpart : part <+: part ++ [chunk] := List.prefix_append _ _
  have hfront : (part ++ [chunk]).flatten <+: s := hflatten ▸ List.prefix_refl _
  have hlt := length_flatten_concat part (hnonempty chunk (by simp))
  have hchunk := eq_slice_of_prefix hfront
  rw [hflatten] at hlt hchunk
  have hline : ∀ k ∈ cuts part, k ≠ r.line.line.length + 1 ∧ k ≠ r.line.line.length + 2 :=
    fun k hk => (hcuts k (cuts_subset_of_part hpart hk) _ hp).1
  have hmem := length_flatten_mem_cuts part
  have hfeed : Connection.feed env .fresh part = progress env s _ part.flatten.length :=
    feed_eq_progress h.blank hp (hpart.flatten.trans hfront)
      (fun c hc => hnonempty c (hpart.subset hc)) (fun k hk _ => hline k hk) (hline _ hmem).2
      (.inl ⟨hlt, hlong⟩)
  obtain ⟨hrequestLine, hheader⟩ := @Request.Spells.parses env r s h
  have hstep : Connection.deliver env .succeed (progress env s r.line.line.length
        part.flatten.length) (slice s part.flatten.length s.length ++ t) =
      Connection.deliver env .succeed (progress env s r.line.line.length part.flatten.length)
        (slice s part.flatten.length s.length) := by
    by_cases hlast : part.flatten.length + 4 ≤ s.length
    · exact deliver_append h.blank hp (hline _ hmem) hlong hlast t
    · -- a cut in the blank line does no harm only where an entry cannot be inserted
      have hview : r.view env = none := by
        by_contra hsome
        obtain ⟨view, hview⟩ := Option.ne_none_iff_exists'.mp hsome
        have hend := (hcuts _ (cuts_subset_of_part hpart hmem) _ hp).2
          ⟨⟨r.line, hrequestLine⟩, .inl ⟨view, hheader.trans (congrArg _ hview)⟩⟩
        omega
      have hrefused := @deliver_refused env s _ _ _ h.blank (by omega) hlt hlong (by omega)
        hrequestLine fun u => headerLoop_append_of_pieces h.shape.2.2.1 u 0 hview
      rw [hrefused t, ← hrefused [], List.append_nil]
  rw [feed_append, feed_append, hfeed, hchunk]
  exact hstep

/-- **What comes behind a head in the same read is lost**, be it the body or the next request;
and a connection answers one request: when it is answered, nothing that comes changes it. -/
theorem trailing_dropped {s chunk : Bytes} {part : List Bytes} (h : r.Spells s)
    (hne : r.fields ≠ []) (hchunks : Delivers (part ++ [chunk]) s)
    (hcuts : ∀ k ∈ cuts (part ++ [chunk]), Harmless env s k) (t : Bytes) (more : List Bytes) :
    Connection.feed env .fresh (part ++ (chunk ++ t) :: more) =
        Connection.feed env .fresh (part ++ chunk :: more) ∧
      ∀ view ∈ r.view env,
        (framing env view = .complete → Connection.feed env .fresh (part ++ (chunk ++ t) :: more) =
          Connection.feed env .fresh (part ++ [chunk])) ∧
        ∀ n, framing env view = .body n → ∀ bytes,
          Connection.feed env .fresh (part ++ (chunk ++ t) :: bytes :: more) =
            Connection.feed env .fresh (part ++ [chunk, bytes]) := by
  have hdrop : ∀ more, Connection.feed env .fresh (part ++ (chunk ++ t) :: more) =
      Connection.feed env (Connection.feed env .fresh (part ++ [chunk])) more := by
    intro more
    rw [← List.singleton_append, ← List.append_assoc, feed_append,
      feed_concat_append h hne hchunks hcuts]
  have hkeep : ∀ more, Connection.feed env .fresh (part ++ chunk :: more) =
      Connection.feed env (Connection.feed env .fresh (part ++ [chunk])) more := by
    intro more
    rw [← List.singleton_append, ← List.append_assoc, feed_append]
  have hleaves : r.Leaves env _ := leaves_of_delivers h hchunks hcuts
  rw [Request.Leaves, if_neg hne] at hleaves
  refine ⟨(hdrop more).trans (hkeep more).symm, fun view hview => ?_⟩
  rw [hview] at hleaves
  constructor
  · intro hframing
    simp only [hframing] at hleaves
    obtain ⟨reader, -, hanswered⟩ := hleaves
    rw [hdrop, hanswered, feed_answered]
  · intro n hframing bytes
    simp only [hframing] at hleaves
    obtain ⟨reader, -, -, -, hbody⟩ := hleaves
    have hanswered : Connection.feed env (Connection.feed env .fresh (part ++ [chunk])) [bytes] =
        .answered (reader.receive bytes) (r.answer env view) := hbody bytes
    calc Connection.feed env .fresh (part ++ (chunk ++ t) :: bytes :: more)
        = Connection.feed env (Connection.feed env
            (Connection.feed env .fresh (part ++ [chunk])) [bytes]) more := hdrop (bytes :: more)
      _ = Connection.feed env (Connection.feed env .fresh (part ++ [chunk])) [bytes] := by
          rw [hanswered, feed_answered]
      _ = Connection.feed env .fresh (part ++ [chunk, bytes]) := (hkeep [bytes]).symm

/-! ### The server -/

/-- **Every request gets its answer**, on a server with any number of connections: when every
completion spares the reads that wait for their callbacks, a connection to which a head came
is what its request leaves; and behind a body, whatever its bytes are, it has its answer. -/
theorem requests_answered {events : List Event} {server' : Server} {c : ℕ} {s : Bytes}
    {chunks : List Bytes}
    (hrun : (server env).execWhere Server.Spares (server env).init events = some server')
    (h : r.Spells s) (hchunks : Delivers chunks s) (hcuts : ∀ k ∈ cuts chunks, Harmless env s k) :
    ∀ slot ∈ server'.slots[c]?,
      ((events.filter fun e => e.connection = some c) = deliveries c chunks →
        r.Leaves env slot.conn) ∧
      ∀ view ∈ r.view env, ∀ n, r.fields ≠ [] → framing env view = .body n → ∀ bytes,
        (events.filter fun e => e.connection = some c) = deliveries c (chunks ++ [bytes]) →
          ∃ reader, slot.conn = .answered reader (r.answer env view) := by
  intro slot hslot
  have hleaves : r.Leaves env _ := leaves_of_delivers h hchunks hcuts
  constructor
  · intro hevents
    rw [conn_eq_feed hrun hevents slot hslot]
    exact hleaves
  · intro view hview n hne hframing bytes hevents
    rw [conn_eq_feed hrun hevents slot hslot, feed_append]
    rw [Request.Leaves, if_neg hne, hview] at hleaves
    simp only [hframing] at hleaves
    obtain ⟨reader, -, -, -, hbody⟩ := hleaves
    exact ⟨_, hbody bytes⟩

end

/-! ### A request for `/a` -/

/-- The request of `getRequest`: the first byte of the value of a header is dropped. -/
def requestOfA : Request :=
  { line := ⟨text "GET", text "/a", text "HTTP/1.1"⟩, fields := [(text "Host", text "y")] }

theorem spells_requestOfA : requestOfA.Spells getRequest where
  blank := onlyAtEnd_getRequest
  method_space := by decide
  path_space := by decide
  lineEnd := by decide
  block := ⟨text "Host: xy\r\n",
    .cons 1 120 (by decide) (by decide) (by decide : Ends crlf (text "y")) .nil, rfl⟩

/-- A second request in the same read is lost. -/
theorem trailing_dropped_requestOfA :
    Connection.feed serverOfA .fresh [getRequest ++ getRequest] =
      Connection.feed serverOfA .fresh [getRequest] := by
  have hdelivers : Delivers ([] ++ [getRequest]) getRequest := ⟨by decide, by decide⟩
  exact (trailing_dropped spells_requestOfA (by decide) hdelivers (by decide) getRequest []).1

/-- A header line without a colon. -/
def withoutColon : Bytes := text "GET / HTTP/1.1\r\nHost\r\n\r\n"

/-- It ends the process, so it spells no request, or one that the server does not survive. -/
theorem terminated_withoutColon :
    (¬∃ r : Request, r.Spells withoutColon) ∨
      ∃ r : Request, r.Spells withoutColon ∧ r.Fatal .bare := by
  have hblank : find blankLine withoutColon = some 20 := by decide
  have hdelivers : Delivers [withoutColon] withoutColon := ⟨by decide, by decide⟩
  exact (terminated_iff (onlyAtEnd_of_find (by decide) hblank (by decide)) hdelivers
    (by decide)).mp ⟨.requestHeader, by decide⟩

/-- Two reads of the request, and another client in between. -/
def requestInTurn : List Event :=
  [.accept, .accept, .complete 0 (getRequest.take 5), .callback 0 .succeed,
    .complete 1 (text "PUT /b"), .callback 1 .succeed, .complete 0 (getRequest.drop 5),
    .callback 0 .succeed]

/-- The handler of `/a` is invoked, and its response is empty. -/
theorem requests_answered_requestOfA :
    ∃ s ∈ (server serverOfA).execWhere Server.Spares (server serverOfA).init requestInTurn,
      ∃ slot ∈ s.slots[0]?, ∃ reader, slot.conn = .answered reader
        (.handler (text "GET") (requestOfA.state ⟨requestOfA.fields⟩), .ok []) := by
  have hdelivers : Delivers [getRequest.take 5, getRequest.drop 5] getRequest :=
    ⟨by decide, by decide⟩
  have hrun : ((server serverOfA).execWhere Server.Spares (server serverOfA).init
      requestInTurn).any (fun s => s.slots[0]?.isSome) = true := by decide
  obtain ⟨s, hs, hsome⟩ := (Option.any_eq_true _ _).mp hrun
  obtain ⟨slot, hslot⟩ := Option.isSome_iff_exists.mp hsome
  have hleaves := (requests_answered hs spells_requestOfA hdelivers (by decide) slot hslot).1 rfl
  obtain ⟨reader, -, hconn⟩ := hleaves
  exact ⟨s, hs, slot, hslot, reader, hconn⟩

end Netknot.Http
