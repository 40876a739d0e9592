import Netknot.Http.ContentLength
import Netknot.Http.Posting
import Netknot.Http.Proceeding

/-!
# How a Call of the Read Callback Ends

The read callback is followed once through its nine functions, together with the functions that
log what it does and with the test whether it proceeds. `Exit` lists the ways in which the three
end, with what holds of the reader there; what a call can do, whatever goes wrong in it, is read
off these ways.

## Main results

* `exit_onStatusChanged`: every call ends in one of these ways.
* `returns_onStatusChanged`: what a call can do to the request line and to the body.
* `refines_onStatusChanged`: the log of a call is what its `Result` says.
* `postsIf_onStatusChanged`: a call that comes back has posted an operation exactly when it
  proceeds.
* `inRange_onStatusChanged`: no call throws `std::out_of_range`.
-/

namespace Netknot.Http

open Search

namespace HttpReadAsyncCallback

/-- What a call makes of the request line and of the array `body`: the line is continued,
and the array is resized at most. -/
structure Extends (old new : HttpReadAsyncCallback) : Prop where
  line : old.requestLine <+: new.requestLine
  body : ∃ k j, new.body = old.body.take k ++ List.replicate j none

/-- **What a call can do**: a read into the body is posted in the body state only. -/
structure Advances (old : HttpReadAsyncCallback) (result : Result) : Prop where
  reader : old.Extends result.reader
  posted : ∀ n, result.posted = some (.body n) → result.reader.parseStatus = .body

theorem Extends.refl (reader : HttpReadAsyncCallback) : reader.Extends reader :=
  ⟨List.prefix_refl _, reader.body.length, 0, by simp⟩

/-- A `resizeUninitialized` behind others is one `resizeUninitialized` of the array at
the start. -/
theorem Extends.resize {old new : HttpReadAsyncCallback} (h : old.Extends new) (n m : ℕ) :
    ∃ k j, new.body.take n ++ List.replicate m none =
      old.body.take k ++ List.replicate j none := by
  obtain ⟨k, j, hbody⟩ := h.body
  refine ⟨min n k, min (n - (old.body.take k).length) j + m, ?_⟩
  rw [hbody, List.take_append, List.take_take, List.take_replicate, List.append_assoc,
    List.replicate_append_replicate]

/-- **How the dispatch ends**: the test whether it proceeds, the function that logs it and the
function that returns a `Result`, side by side. -/
inductive Answers (env : Env) (ch : Choices) (reader : HttpReadAsyncCallback)
    (log : List Action) : Bool → Ending → Except Terminate Result → Prop
  /-- The process ends. -/
  | terminated {why : Terminate} (hwhy : why ≠ .outOfRange) :
      Answers env ch reader log true (.error why) (.error why)
  /-- The handler fails. -/
  | failed (e : Exception) (d : Dispatch) :
      Answers env ch reader log false (.ok (some e, ⟨reader, log ++ [.dispatch d]⟩))
        (.ok { e := some e, reader := reader, posted := none, dispatch := some d })
  /-- There is a response. -/
  | responds {state : HttpURLHandlerState} {d : Dispatch}
      (hanswered : d.Answered env ch reader.requestLineView state) :
      Answers env ch reader log ch.responseProceeds
        (Trace.respond ⟨reader, log ++ [.dispatch d]⟩ ch state)
        (.ok (reader.respond ch state d))

/-- **How a call ends** that started with the reader `old`: the test whether it proceeds, the
function that logs it and the function that returns a `Result`, side by side. The request is
dispatched by `view`. -/
inductive Exit (env : Env) (ch : Choices) (old : HttpReadAsyncCallback)
    (view : HttpRequestLineView) (log : List Action) :
    Bool → Ending → Except Terminate Result → Prop
  /-- The process ends. -/
  | terminated {why : Terminate} (hwhy : why ≠ .outOfRange) :
      Exit env ch old view log true (.error why) (.error why)
  /-- Nothing was done, or memory was missing. -/
  | returns {reader : HttpReadAsyncCallback} (e : ExceptionPointer) (h : old.Extends reader) :
      Exit env ch old view log false (.ok (e, ⟨reader, log⟩))
        (.ok { e := e, reader := reader, posted := none, dispatch := none })
  /-- More of the request line is awaited. -/
  | readsLine {reader : HttpReadAsyncCallback} (h : old.Extends reader)
      (hold : old.parseStatus = .initial) (hstatus : reader.parseStatus = .initial)
      (hheader : reader.requestHeader = old.requestHeader) :
      Exit env ch old view log ch.submit.isNone (Trace.submit ⟨reader, log⟩ ch .read)
        (.ok (reader.reads ch .read))
  /-- More of the header lines is awaited. -/
  | readsHeader {reader : HttpReadAsyncCallback} (h : old.Extends reader)
      (hstatus : reader.parseStatus = .header)
      (hblank : find blankLine reader.requestHeader = none) :
      Exit env ch old view log ch.submit.isNone (Trace.submit ⟨reader, log⟩ ch .read)
        (.ok (reader.reads ch .read))
  /-- The body is awaited. -/
  | readsBody {reader : HttpReadAsyncCallback} (n : ℕ) (h : old.Extends reader)
      (hstatus : reader.parseStatus = .body) :
      Exit env ch old view log ch.submit.isNone (Trace.submit ⟨reader, log⟩ ch (.body n))
        (.ok (reader.reads ch (.body n)))
  /-- The request is dispatched. -/
  | answers {reader : HttpReadAsyncCallback} {b : Bool} {x : Ending} {y : Except Terminate Result}
      (h : old.Extends reader) (hview : reader.requestLineView = view)
      (hanswers : Answers env ch reader log b x y) : Exit env ch old view log b x y

/-! ### The nine functions -/

section

variable {env : Env} {ch : Choices} {old reader : HttpReadAsyncCallback}
  {view : HttpRequestLineView} {log : List Action}

/-- A test for memory ends the call, or is followed by the rest of it. -/
theorem exit_of_memory {b c : Bool} {x : Ending} {y : Except Terminate Result}
    (h : old.Extends reader) (hexit : Exit env ch old view log b x y) :
    Exit env ch old view log (!c && b)
      (if c then Trace.leave ⟨reader, log⟩ (some .outOfMemory) else x)
      (if c then .ok (reader.fails .outOfMemory) else y) := by
  cases c with
  | true => exact .returns (some .outOfMemory) h
  | false => exact hexit

/-- The answer of the server itself ends in one of these ways. -/
theorem answers_answer {state : HttpURLHandlerState} {status : HttpResponseStatus}
    (hhandler : handlerFor env reader.requestLineView = none)
    (hstage : state.stage = .statusLine) :
    Answers env ch reader log (answerProceeds env ch state status)
      (Trace.answer ⟨reader, log⟩ env ch state status) (reader.answer env ch state status) := by
  rw [answerProceeds, Trace.answer, answer]
  have hrange : state.writeResponse env.sizeofSizeT (fun i => ch.oom (.responseData i)) status
      (text "text/plain") [] ≠ .error .outOfRange :=
    HttpURLHandlerState.writeResponse_ne_error Terminate.noConfusion Terminate.noConfusion
  cases hresponse : state.writeResponse env.sizeofSizeT (fun i => ch.oom (.responseData i)) status
    (text "text/plain") [] with
  | error why => exact .terminated fun hwhy => hrange (hwhy ▸ hresponse)
  | ok a =>
      obtain ⟨e, state'⟩ := a
      simp only [bind, Except.bind]
      cases e.isSome && env.assertions with
      | true => exact .terminated Terminate.noConfusion
      | false => exact .responds ⟨hhandler, e, state, hstage, hresponse⟩

/-- The dispatch ends in one of these ways. -/
theorem answers_onBody (reader : HttpReadAsyncCallback) :
    Answers env ch reader log (reader.bodyProceeds env ch) (Trace.onBody ⟨reader, log⟩ env ch)
      (reader.onBody env ch) := by
  rw [bodyProceeds, Trace.onBody, onBody]
  dsimp only
  cases reader.isChunked with
  | true => exact .terminated Terminate.noConfusion
  | false =>
      obtain ⟨target, htarget⟩ := splitTarget_ok reader.requestLineView.path
      simp only [htarget, bind, Except.bind, Bool.false_or, Bool.false_eq_true, if_false]
      cases target with
      | none =>
          refine answers_answer ?_ rfl
          rw [handlerFor, htarget]
      | some target =>
          have hhandler : handlerFor env reader.requestLineView =
              (env.handlerRegistries.lookup target.path).bind fun handlers =>
                handlers.lookup reader.requestLineView.method := by
            rw [handlerFor, htarget]
          dsimp only
          cases hreg : env.handlerRegistries.lookup target.path with
          | none =>
              rw [hreg] at hhandler
              exact answers_answer hhandler rfl
          | some handlers =>
              rw [hreg, Option.bind_some] at hhandler
              dsimp only
              cases hmethod : handlers.lookup reader.requestLineView.method with
              | none => exact answers_answer (hhandler.trans hmethod) rfl
              | some handleURL =>
                  have hsome : (handlerFor env reader.requestLineView).isSome = true := by
                    rw [hhandler, hmethod]
                    rfl
                  dsimp only
                  cases handleURL _ with
                  | some e => exact .failed e (.handler _ _)
                  | none => exact .responds ⟨hsome, rfl, rfl⟩

theorem exit_awaitBody (h : old.Extends reader) :
    Exit env ch old reader.requestLineView log (reader.awaitProceeds env ch)
      (Trace.awaitBody ⟨reader, log⟩ env ch) (reader.awaitBody env ch) := by
  have hbody : old.Extends { reader with parseStatus := .body } := ⟨h.line, h.body⟩
  have htrace : Trace.awaitBody ⟨reader, log⟩ env ch =
      if reader.isChunked then throw .chunked
      else if reader.expectedBodySize ≠ 0 then
        Trace.submit ⟨{ reader with parseStatus := .body }, log⟩ ch (.body reader.expectedBodySize)
      else Trace.onBody ⟨{ reader with parseStatus := .body }, log⟩ env ch := rfl
  have hcall : reader.awaitBody env ch =
      if reader.isChunked then throw .chunked
      else if reader.expectedBodySize ≠ 0 then
        return { reader with parseStatus := .body }.reads ch (.body reader.expectedBodySize)
      else { reader with parseStatus := .body }.onBody env ch := rfl
  rw [awaitProceeds]
  by_cases hchunked : reader.isChunked = true
  · rw [hchunked, htrace, hcall, if_pos hchunked, if_pos hchunked]
    exact .terminated Terminate.noConfusion
  · rw [Bool.eq_false_of_not_eq_true hchunked, Bool.false_or, htrace, hcall, if_neg hchunked,
      if_neg hchunked]
    split
    · exact .readsBody _ hbody rfl
    · exact .answers hbody rfl (answers_onBody { reader with parseStatus := .body })

theorem exit_onContentLength (h : old.Extends reader) :
    Exit env ch old reader.requestLineView log (reader.contentLengthProceeds env ch)
      (Trace.onContentLength ⟨reader, log⟩ env ch) (reader.onContentLength env ch) := by
  rw [contentLengthProceeds, Trace.onContentLength, onContentLength]
  dsimp only
  cases reader.requestHeaderView.find (text "Content-Length") with
  | none => exact exit_awaitBody h
  | some value =>
      dsimp only
      cases contentLength env.sizeMax 0 value with
      | none => exact .terminated Terminate.noConfusion
      | some n =>
          have hresize : old.Extends { reader with
              body := reader.body.take n ++ List.replicate (n - reader.body.length) none
              expectedBodySize := n } := ⟨h.line, h.resize _ _⟩
          exact exit_of_memory h (exit_awaitBody hresize)

theorem exit_onHeaderBlock (h : old.Extends reader) :
    Exit env ch old reader.requestLineView log (reader.headerBlockProceeds env ch)
      (Trace.onHeaderBlock ⟨reader, log⟩ env ch) (reader.onHeaderBlock env ch) := by
  rw [headerBlockProceeds, Trace.onHeaderBlock, onHeaderBlock]
  dsimp only
  obtain ⟨found, hfound⟩ := @headerLoop_ok env.duplicate (fun line => ch.oom (.headerEntry line))
    reader.requestHeader.length 0 {} reader.requestHeader
  rw [parseHttpRequestHeader, hfound]
  cases found with
  | none => exact .terminated Terminate.noConfusion
  | some view =>
      simp only [bind, Except.bind]
      cases view.find (text "Transfer-Encoding") with
      | none =>
          have hview : old.Extends { reader with requestHeaderView := view } := ⟨h.line, h.body⟩
          exact exit_onContentLength hview
      | some value =>
          simp only [Option.some.injEq]
          by_cases hchunked : value = text "chunked"
          · rw [if_pos hchunked, if_pos hchunked, if_pos hchunked]
            exact .terminated Terminate.noConfusion
          · rw [if_neg hchunked, if_neg hchunked, if_neg hchunked]
            have hview : old.Extends { reader with
                requestHeaderView := view
                transferEncoding := value } := ⟨h.line, h.body⟩
            exact exit_onContentLength hview

theorem exit_onHeader (h : old.Extends reader) (hstatus : reader.parseStatus = .header)
    (sv : Bytes) :
    Exit env ch old reader.requestLineView log (reader.headerProceeds env ch sv)
      (Trace.onHeader ⟨reader, log⟩ env ch sv) (reader.onHeader env ch sv) := by
  have happend : ∀ piece, old.Extends
      { reader with requestHeader := reader.requestHeader ++ piece } := fun _ => ⟨h.line, h.body⟩
  rw [headerProceeds, Trace.onHeader, onHeader]
  cases hfind : find blankLine sv with
  | some offSeparator =>
      -- the four bytes that were found are inside the chunk
      have hle : offSeparator + 4 ≤ sv.length := (occursAt_of_find hfind).le (by decide)
      simp only [substr_of_le (Nat.zero_le _), substrFrom_of_le hle, List.drop_zero, bind,
        Except.bind]
      exact exit_of_memory h (exit_onHeaderBlock (happend _))
  | none =>
      refine exit_of_memory h ?_
      dsimp only [Trace.update]
      cases hall : find blankLine (reader.requestHeader ++ sv) with
      | none => exact .readsHeader (happend sv) hstatus hall
      | some off => exact exit_onHeaderBlock (happend sv)

/-- A call that has the whole request line parses it, and goes on to the header lines. -/
theorem exit_onRequestLine (h : old.Extends reader) (sv : Bytes)
    (hview : ∀ view', parseHttpRequestLine reader.requestLine = .ok (some view') →
      view' = view) :
    Exit env ch old view log (reader.requestLineProceeds env ch sv)
      (Trace.onRequestLine ⟨reader, log⟩ env ch sv) (reader.onRequestLine env ch sv) := by
  rw [requestLineProceeds, Trace.onRequestLine, onRequestLine]
  dsimp only
  cases hfound : parseHttpRequestLine reader.requestLine with
  | error why =>
      rw [parseHttpRequestLine_eq] at hfound
      cases hfound
  | ok found =>
      cases found with
      | none => exact .terminated Terminate.noConfusion
      | some view' =>
          obtain rfl := hview view' hfound
          have hline : old.Extends { reader with
              requestLineView := view'
              parseStatus := .header } := ⟨h.line, h.body⟩
          exact exit_onHeader hline rfl sv

/-- A call in the initial state awaits more of the request line, or goes on with it. -/
theorem exit_onInitial (hstatus : reader.parseStatus = .initial) (sv : Bytes)
    (hview : ∀ view', parseHttpRequestLine (reader.lineAt sv) = .ok (some view') →
      view' = view) :
    Exit env ch reader view log (reader.initialProceeds env ch sv)
      (Trace.onInitial ⟨reader, log⟩ env ch sv) (reader.onInitial env ch sv) := by
  have happend : ∀ more, reader.Extends
      { reader with requestLine := reader.requestLine ++ more } := fun more =>
    ⟨List.prefix_append _ _, (Extends.refl reader).body⟩
  rw [lineAt] at hview
  rw [initialProceeds, Trace.onInitial, onInitial]
  cases hfind : find crlf sv with
  | some offSeparator =>
      -- the two bytes that were found are inside the chunk
      have hle : offSeparator + 2 ≤ sv.length := (occursAt_of_find hfind).le (by decide)
      rw [hfind, Option.getD_some] at hview
      simp only [substr_of_le (Nat.zero_le _), substrFrom_of_le hle, List.drop_zero, bind,
        Except.bind]
      refine exit_of_memory (Extends.refl reader) ?_
      split
      · exact .readsLine (happend _) hstatus hstatus rfl
      · exact exit_onRequestLine (happend _) _ hview
  | none =>
      rw [hfind, Option.getD_none, List.take_length] at hview
      refine exit_of_memory (Extends.refl reader) ?_
      dsimp only [Trace.update]
      cases find crlf (reader.requestLine ++ sv) with
      | none => exact .readsLine (happend sv) hstatus hstatus rfl
      | some off => exact exit_onRequestLine (happend sv) sv hview

/-- **Every call ends in one of these ways**, whatever goes wrong in it. -/
theorem exit_onStatusChanged (reader : HttpReadAsyncCallback) (status : AsyncTaskStatus)
    (sv : Bytes) :
    Exit env ch reader (reader.viewAt sv) log (reader.proceeds env ch status sv)
      (Trace.onStatusChanged ⟨reader, log⟩ env ch status sv)
      (reader.onStatusChanged env ch status sv) := by
  have hrefl := Extends.refl reader
  cases status with
  | done =>
      rw [proceeds, Trace.onStatusChanged, onStatusChanged, viewAt]
      dsimp only
      cases hstatus : reader.parseStatus with
      | initial =>
          refine exit_onInitial hstatus sv fun view' hview => ?_
          rw [hview]
      | header => exact exit_onHeader hrefl hstatus sv
      | body => exact .answers hrefl rfl (answers_onBody reader)
  | ready | running | interrupted => exact .returns none hrefl

end

/-! ### What a call can do -/

section

variable {env : Env} {ch : Choices} {old reader : HttpReadAsyncCallback}
  {view : HttpRequestLineView} {log : List Action} {b : Bool} {x : Ending}
  {y : Except Terminate Result}

/-- The dispatch leaves the reader as it is, and posts the response at most. -/
theorem Answers.settles (h : Answers env ch reader log b x y) : Returns reader.Settles y := by
  cases h with
  | terminated hwhy => exact trivial
  | failed e d => exact ⟨rfl, .inl rfl⟩
  | responds hanswered => exact settles_respond _ _ _ _

theorem returns_onBody : Returns reader.Settles (reader.onBody env ch) :=
  (@answers_onBody env ch [] reader).settles

/-- A read that is posted, or not, is an advance of the reader it leaves. -/
theorem Extends.advances_reads (h : old.Extends reader) {posted : Posted}
    (hposted : ∀ n, posted = .body n → reader.parseStatus = .body) :
    old.Advances (reader.reads ch posted) := by
  refine ⟨h, fun n hn => hposted n ?_⟩
  rw [reads] at hn
  dsimp only at hn
  split at hn
  · cases hn
  · exact Option.some.inj hn

/-- What a call can do is what can be done on its way out. -/
theorem Exit.advances (h : Exit env ch old view log b x y) : Returns old.Advances y := by
  cases h with
  | terminated hwhy => exact trivial
  | returns e h => exact ⟨h, fun n hn => by cases hn⟩
  | readsLine h hold hstatus hheader => exact h.advances_reads fun _ hn => Posted.noConfusion hn
  | readsHeader h hstatus hblank => exact h.advances_reads fun _ hn => Posted.noConfusion hn
  | readsBody n h hstatus => exact h.advances_reads fun _ _ => hstatus
  | answers h hview hanswers =>
      refine hanswers.settles.imp fun result hsettles => ⟨hsettles.reader ▸ h, fun n hn => ?_⟩
      rcases hsettles.posted with hnone | ⟨data, hdata⟩
      · exact absurd (hnone.symm.trans hn) (by simp)
      · exact absurd (hdata.symm.trans hn) (by simp)

theorem returns_onRequestLine (h : old.Extends reader) (sv : Bytes) :
    Returns old.Advances (reader.onRequestLine env ch sv) := by
  obtain ⟨view, hview⟩ : ∃ view, ∀ view',
      parseHttpRequestLine reader.requestLine = .ok (some view') → view' = view := by
    by_cases hfound : Found (parseHttpRequestLine reader.requestLine)
    · obtain ⟨view, hview⟩ := hfound
      exact ⟨view, fun view' h => Option.some.inj (Except.ok.inj (h.symm.trans hview))⟩
    · exact ⟨{}, fun view' h => absurd ⟨view', h⟩ hfound⟩
  exact (@exit_onRequestLine env ch old reader view [] h sv hview).advances

/-- **What a call can do**, whatever goes wrong. -/
theorem returns_onStatusChanged (reader : HttpReadAsyncCallback) (status : AsyncTaskStatus)
    (sv : Bytes) : Returns reader.Advances (reader.onStatusChanged env ch status sv) :=
  (@exit_onStatusChanged env ch [] reader status sv).advances

/-- The log of the dispatch is what its `Result` says. -/
theorem Answers.refines (h : Answers env ch reader log b x y) :
    Refines env ch reader.requestLineView log x y := by
  cases h with
  | terminated hwhy => exact .terminated _
  | failed e d => exact refines_dispatched reader (some e) d
  | responds hanswered => exact refines_respond reader hanswered

/-- The log is what the `Result` says on every way out. -/
theorem Exit.refines (h : Exit env ch old view log b x y) : Refines env ch view log x y := by
  cases h with
  | terminated hwhy => exact .terminated _
  | returns e h => exact refines_returns _ e
  | readsLine h hold hstatus hheader => exact refines_reads _ fun _ => .read
  | readsHeader h hstatus hblank => exact refines_reads _ fun _ => .read
  | readsBody n h hstatus => exact refines_reads _ fun _ => .body n
  | answers h hview hanswers => exact hview ▸ hanswers.refines

/-- **The log of a call is what its `Result` says.** -/
theorem refines_onStatusChanged (reader : HttpReadAsyncCallback) (status : AsyncTaskStatus)
    (sv : Bytes) :
    Refines env ch (reader.viewAt sv) log (Trace.onStatusChanged ⟨reader, log⟩ env ch status sv)
      (reader.onStatusChanged env ch status sv) :=
  (exit_onStatusChanged reader status sv).refines

/-- The test whether the dispatch proceeds says whether the response is posted. -/
theorem Answers.postsIf (h : Answers env ch reader log b x y) : PostsIf b y := by
  cases h with
  | terminated hwhy => exact rfl
  | failed e d => exact rfl
  | responds hanswered => exact postsIf_respond _ _ _

/-- The test whether a call proceeds is right on every way out. -/
theorem Exit.postsIf (h : Exit env ch old view log b x y) : PostsIf b y := by
  cases h with
  | terminated hwhy => exact rfl
  | returns e h => exact rfl
  | readsLine h hold hstatus hheader => exact postsIf_reads _ _
  | readsHeader h hstatus hblank => exact postsIf_reads _ _
  | readsBody n h hstatus => exact postsIf_reads _ _
  | answers h hview hanswers => exact hanswers.postsIf

/-- **When a call posts an operation**: it proceeds. -/
theorem postsIf_onStatusChanged (reader : HttpReadAsyncCallback) (status : AsyncTaskStatus)
    (sv : Bytes) :
    PostsIf (reader.proceeds env ch status sv) (reader.onStatusChanged env ch status sv) :=
  (@exit_onStatusChanged env ch [] reader status sv).postsIf

/-- No way out is an exception of `substr`. -/
theorem Exit.inRange (h : Exit env ch old view log b x y) : y ≠ .error .outOfRange := by
  intro hy
  cases h with
  | terminated hwhy => exact hwhy (Except.error.inj hy)
  | returns | readsLine | readsHeader | readsBody => cases hy
  | answers h hview hanswers =>
      cases hanswers with
      | terminated hwhy => exact hwhy (Except.error.inj hy)
      | failed | responds => cases hy

/-- **No view is cut behind its end**, whatever the reader has accumulated and whatever the
chunk holds. -/
theorem inRange_onStatusChanged (reader : HttpReadAsyncCallback) (status : AsyncTaskStatus)
    (sv : Bytes) : reader.onStatusChanged env ch status sv ≠ .error .outOfRange :=
  (@exit_onStatusChanged env ch [] reader status sv).inRange

/-- When nothing goes wrong, a call in the initial state appends what the chunk holds before
the first end of a line. -/
theorem onInitial_appends (reader : HttpReadAsyncCallback) (env : Env) (sv : Bytes) :
    Returns (fun result => reader.requestLine ++ sv.take ((find crlf sv).getD sv.length) <+:
      result.reader.requestLine) (reader.onInitial env .succeed sv) := by
  have hline : ∀ (reader' : HttpReadAsyncCallback) (sv' : Bytes),
      Returns (fun result => reader'.requestLine <+: result.reader.requestLine)
        (reader'.onRequestLine env .succeed sv') := fun reader' sv' =>
    (returns_onRequestLine (Extends.refl reader') sv').imp fun _ h => h.reader.line
  cases hfind : find crlf sv with
  | some off =>
      rw [Option.getD_some]
      by_cases hlt : off + 2 < sv.length
      · rw [onInitial_found succeed_oom hfind hlt]
        exact hline _ _
      · rw [onInitial_found_last succeed_oom hfind (Nat.le_of_not_lt hlt)]
        exact List.prefix_refl _
  | none =>
      rw [Option.getD_none, List.take_length]
      cases hall : find crlf (reader.requestLine ++ sv) with
      | none =>
          rw [onInitial_missing succeed_oom hfind hall]
          exact List.prefix_refl _
      | some off =>
          rw [onInitial_across succeed_oom hfind hall]
          exact hline _ _

end

end HttpReadAsyncCallback

end Netknot.Http
