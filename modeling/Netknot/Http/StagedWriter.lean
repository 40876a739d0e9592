import Netknot.Http.Response
import Netknot.Lib.Machine

/-!
# Writing a Response in Stages

A handler writes its response with `writeStatusLine`, `writeHeader`, `endHeader` and `writeBody`,
in the order that `stage` allows, and may call a function again that reported an exception. Each
call is given the string operations that will find no memory; a `build` or an `append` that fails
leaves the string as it was.

The text of a response is the one thing it is for, so a state is **composed** when
`responseData` holds the complete encodings of the calls that succeeded, and nothing else, and
`stage` is where these calls lead.

A call appends its pieces one by one and does not take back what it has appended when a later
one fails.

## Main results

* `appendAll_eq`: what a run of `append`s leaves behind.
* `stage_of_run`: the stage is right, whatever fails.
* `writer_composes_iff`: the state stays composed as long as every call that fails does so before
  it has written anything.
* `writer_not_composed`: a header line that fails behind its name, and is written again.
-/

namespace Netknot.Http

/-- How many of a run of `append`s, numbered from `i`, succeed before one fails. -/
def appended (oom : ℕ → Bool) : ℕ → List Bytes → ℕ
  | _, [] => 0
  | i, _ :: pieces => if oom i then 0 else appended oom (i + 1) pieces + 1

/-- **What a run of `append`s leaves behind**: the pieces before the one that fails. -/
theorem appendAll_eq (oom : ℕ → Bool) (i : ℕ) (data : Bytes) (pieces : List Bytes) :
    appendAll oom i data pieces =
      (data ++ (pieces.take (appended oom i pieces)).flatten,
        appended oom i pieces == pieces.length) := by
  induction pieces generalizing i data with
  | nil => simp [appendAll, appended]
  | cons piece pieces ih =>
      rw [appendAll, appended]
      by_cases hoom : oom i = true
      · rw [if_pos hoom, if_pos hoom]
        simp
      · rw [if_neg hoom, if_neg hoom, ih]
        simp [List.append_assoc]

/-- The first piece is appended, or nothing is. -/
theorem HttpURLHandlerState.write_cons (state : HttpURLHandlerState) (oom : ℕ → Bool) (i : ℕ)
    (piece : Bytes) (pieces : List Bytes) (next : HttpURLHandlerStateStage) :
    state.write oom i (piece :: pieces) next =
      if oom i then (some .outOfMemory, state)
      else { state with responseData := state.responseData ++ piece }.write oom (i + 1) pieces
        next := by
  rw [write, appendAll]
  by_cases hoom : oom i = true
  · rw [if_pos hoom, if_pos hoom]
    rfl
  · rw [if_neg hoom, if_neg hoom]
    rfl

/-- **What a `write` function does**: it moves on when all its `append`s succeed, and otherwise
keeps what it has appended. -/
theorem HttpURLHandlerState.write_eq (state : HttpURLHandlerState) (oom : ℕ → Bool) (i : ℕ)
    (pieces : List Bytes) (next : HttpURLHandlerStateStage) :
    state.write oom i pieces next =
      if appended oom i pieces = pieces.length then
        (none, { state with
          responseData := state.responseData ++ pieces.flatten
          stage := next })
      else (some .outOfMemory, { state with
        responseData :=
          state.responseData ++ (pieces.take (appended oom i pieces)).flatten }) := by
  rw [write, appendAll_eq]
  by_cases hall : appended oom i pieces = pieces.length
  · rw [if_pos hall, hall, List.take_length]
    simp
  · rw [if_neg hall]
    simp [hall]

/-- A call of one of the functions that write. -/
inductive WriterCall
  | writeStatusLine (status : HttpResponseStatus)
  | writeHeader (name value : Bytes)
  | endHeader
  | writeBody (data : Bytes)
  deriving DecidableEq, Repr

namespace WriterCall

/-- The call on a state. -/
def perform (state : HttpURLHandlerState) (oom : ℕ → Bool) :
    WriterCall → Except Terminate (ExceptionPointer × HttpURLHandlerState)
  | .writeStatusLine status => state.writeStatusLine oom status
  | .writeHeader name value => state.writeHeader oom name value
  | .endHeader => state.endHeader oom
  | .writeBody data => state.writeBody oom data

/-- The stage the call is for. -/
def stage : WriterCall → HttpURLHandlerStateStage
  | .writeStatusLine _ => .statusLine
  | .writeHeader _ _ => .responseHeaders
  | .endHeader => .responseHeaders
  | .writeBody _ => .responseBody

/-- The stage the call leads to. -/
def next : WriterCall → HttpURLHandlerStateStage
  | .writeStatusLine _ => .responseHeaders
  | .writeHeader _ _ => .responseHeaders
  | .endHeader => .responseBody
  | .writeBody _ => .responseBody

/-- What the string operations of the call append, one after the other. -/
def pieces : WriterCall → List Bytes
  | .writeStatusLine status => [text "HTTP/1,1 ", getHttpResponseMessage status, text "\r\n"]
  | .writeHeader name value => [name, text ": ", value, text "\r\n"]
  | .endHeader => [text "\r\n"]
  | .writeBody data => [data, text "\r\n"]

/-- The complete encoding of the call. -/
def encoding (call : WriterCall) : Bytes := call.pieces.flatten

/-- **The call leaves no fragment**: its first operation fails, or those before the one that
fails append nothing, or none fails. -/
def spares (oom : ℕ → Bool) : WriterCall → Bool
  | .writeStatusLine _ => oom 0 || !(oom 1 || oom 2)
  | .writeHeader name _ => oom 0 || (name.isEmpty && oom 1) || !(oom 1 || oom 2 || oom 3)
  | .endHeader => true
  | .writeBody data => oom 0 || data.isEmpty || !oom 1

/-- No call leads back to the first stage. -/
theorem next_ne_statusLine (call : WriterCall) : call.next ≠ .statusLine := by
  cases call <;> exact HttpURLHandlerStateStage.noConfusion

/-- A call at the wrong stage ends the process. -/
theorem perform_of_ne {state : HttpURLHandlerState} {call : WriterCall} (oom : ℕ → Bool)
    (hne : state.stage ≠ call.stage) : call.perform state oom = .error .stage := by
  cases call with
  | writeStatusLine status => exact if_pos hne
  | writeHeader name value => exact if_pos hne
  | endHeader => exact if_pos hne
  | writeBody data => exact if_pos hne

/-- A call that returns was made at its stage. -/
theorem stage_eq_of_perform {state : HttpURLHandlerState} {call : WriterCall} {oom : ℕ → Bool}
    {result : ExceptionPointer × HttpURLHandlerState} (h : call.perform state oom = .ok result) :
    state.stage = call.stage := by
  by_contra hne
  rw [perform_of_ne oom hne] at h
  cases h

/-- A call ends the process at the wrong stage only. -/
theorem perform_ne_error (state : HttpURLHandlerState) (oom : ℕ → Bool) (call : WriterCall)
    {reason : Terminate} (hreason : reason ≠ .stage) :
    call.perform state oom ≠ .error reason := by
  by_cases hstage : state.stage = call.stage
  · cases call with
    | writeHeader name value => exact ne_of_eq_of_ne (if_neg (not_not.mpr hstage)) (by simp)
    | endHeader => exact ne_of_eq_of_ne (if_neg (not_not.mpr hstage)) (by simp)
    | writeBody data => exact ne_of_eq_of_ne (if_neg (not_not.mpr hstage)) (by simp)
    | writeStatusLine status =>
        refine ne_of_eq_of_ne (if_neg (not_not.mpr hstage)) ?_
        split <;> simp
  · rw [perform_of_ne oom hstage]
    simpa using hreason.symm

/-- **A call is a run of `append`s** on a state of its stage, which holds nothing when that is
the first: then `build` appends as well. -/
theorem perform_eq {state : HttpURLHandlerState} {call : WriterCall} (oom : ℕ → Bool)
    (hstage : state.stage = call.stage)
    (hempty : state.stage = .statusLine → state.responseData = []) :
    call.perform state oom = .ok (state.write oom 0 call.pieces call.next) := by
  cases call with
  | writeHeader name value => exact if_neg (not_not.mpr hstage)
  | endHeader => exact if_neg (not_not.mpr hstage)
  | writeBody data => exact if_neg (not_not.mpr hstage)
  | writeStatusLine status =>
      have hfirst : state.stage = .statusLine := hstage
      rw [perform, HttpURLHandlerState.writeStatusLine, if_neg (not_not.mpr hfirst), pieces,
        HttpURLHandlerState.write_cons state oom 0, hempty hfirst, List.nil_append]
      split
      · rfl
      · rfl

/-- **When a call leaves no fragment**: all its pieces are appended, or those that are make up
no text. -/
theorem spares_iff (oom : ℕ → Bool) (call : WriterCall) :
    call.spares oom = true ↔
      appended oom 0 call.pieces = call.pieces.length ∨
        (call.pieces.take (appended oom 0 call.pieces)).flatten = [] := by
  have hversion : text "HTTP/1,1 " ≠ [] := by decide
  have hseparator : text ": " ≠ [] := by decide
  cases call with
  | writeStatusLine status =>
      cases h0 : oom 0 <;> cases h1 : oom 1 <;> cases h2 : oom 2 <;>
        simp [spares, pieces, appended, h0, h1, h2, hversion]
  | writeHeader name value =>
      cases h0 : oom 0 <;> cases h1 : oom 1 <;> cases h2 : oom 2 <;> cases h3 : oom 3 <;>
        simp [spares, pieces, appended, h0, h1, h2, h3, hseparator]
  | endHeader => cases h0 : oom 0 <;> simp [spares, pieces, appended, h0]
  | writeBody data =>
      cases h0 : oom 0 <;> cases h1 : oom 1 <;> simp [spares, pieces, appended, h0, h1]

end WriterCall

/-! ### Runs -/

/-- A handler that writes: its state, and the calls that succeeded. -/
structure Writer where
  state : HttpURLHandlerState
  /-- History: the calls that reported no exception. -/
  done : List WriterCall := []
  deriving DecidableEq, Repr

/-- What a call makes of the history. -/
def Writer.after (w : Writer) (call : WriterCall) (e : ExceptionPointer)
    (state : HttpURLHandlerState) : Writer :=
  { state := state, done := if e.isNone then w.done ++ [call] else w.done }

/-- **The calls of a handler**, failed ones among them, that respect the stage checks. -/
def writer (start : HttpURLHandlerState) : Machine Writer (WriterCall × (ℕ → Bool)) where
  init := { state := { start with responseData := [], stage := .statusLine } }
  step := fun w l =>
    match l.1.perform w.state l.2 with
    | .error _ => none
    | .ok (e, state) => some (w.after l.1 e state)

/-- The stage that calls lead to. -/
def stageAfter (calls : List WriterCall) : HttpURLHandlerStateStage :=
  (calls.getLast?.map WriterCall.next).getD .statusLine

/-- **A state is composed**: `responseData` holds the encodings of the calls that succeeded, and
`stage` is where they lead. -/
structure Writer.Composed (w : Writer) : Prop where
  responseData : w.state.responseData = (w.done.map WriterCall.encoding).flatten
  stage : w.state.stage = stageAfter w.done

/-- At the first stage no call has succeeded. -/
theorem eq_nil_of_stageAfter {calls : List WriterCall} (h : stageAfter calls = .statusLine) :
    calls = [] := by
  rcases calls.eq_nil_or_concat with rfl | ⟨calls, call, rfl⟩
  · rfl
  · rw [stageAfter, List.concat_eq_append, List.getLast?_concat] at h
    exact absurd h call.next_ne_statusLine

/-- A call leads to its stage. -/
@[simp]
theorem stageAfter_concat (calls : List WriterCall) (call : WriterCall) :
    stageAfter (calls ++ [call]) = call.next := by
  rw [stageAfter, List.getLast?_concat]
  rfl

namespace Writer

variable {w : Writer}

/-- A composed state of the first stage holds nothing. -/
theorem Composed.empty (h : w.Composed) (hstage : w.state.stage = .statusLine) :
    w.state.responseData = [] := by
  rw [h.responseData, eq_nil_of_stageAfter (h.stage.symm.trans hstage)]
  rfl

/-- A handler starts composed. -/
theorem composed_init (start : HttpURLHandlerState) : (writer start).init.Composed :=
  ⟨rfl, rfl⟩

/-- **A call on a composed state** appends its whole encoding and succeeds, or some of its pieces
and fails. -/
theorem Composed.perform_eq (h : w.Composed) {call : WriterCall} {oom : ℕ → Bool}
    {e : ExceptionPointer} {state : HttpURLHandlerState}
    (hperform : call.perform w.state oom = .ok (e, state)) :
    appended oom 0 call.pieces = call.pieces.length ∧ e = none ∧ state = { w.state with
        responseData := w.state.responseData ++ call.encoding
        stage := call.next } ∨
      appended oom 0 call.pieces ≠ call.pieces.length ∧ e = some .outOfMemory ∧
        state = { w.state with
          responseData := w.state.responseData ++
            (call.pieces.take (appended oom 0 call.pieces)).flatten } := by
  rw [WriterCall.perform_eq oom (WriterCall.stage_eq_of_perform hperform) h.empty,
    HttpURLHandlerState.write_eq] at hperform
  by_cases hall : appended oom 0 call.pieces = call.pieces.length
  · rw [if_pos hall] at hperform
    obtain ⟨rfl, rfl⟩ := Prod.mk.inj (Except.ok.inj hperform)
    exact .inl ⟨hall, rfl, rfl⟩
  · rw [if_neg hall] at hperform
    obtain ⟨rfl, rfl⟩ := Prod.mk.inj (Except.ok.inj hperform)
    exact .inr ⟨hall, rfl, rfl⟩

/-- **The step**: a call keeps a composed state composed, and leaves it alone when it fails, if
and only if it leaves no fragment. -/
theorem Composed.after_iff (h : w.Composed) {call : WriterCall} {oom : ℕ → Bool}
    {e : ExceptionPointer} {state : HttpURLHandlerState}
    (hperform : call.perform w.state oom = .ok (e, state)) :
    ((w.after call e state).Composed ∧ (e ≠ none → state = w.state)) ↔
      call.spares oom = true := by
  rw [WriterCall.spares_iff]
  rcases h.perform_eq hperform with ⟨hall, rfl, rfl⟩ | ⟨hfail, rfl, rfl⟩
  · refine iff_of_true ⟨⟨?_, ?_⟩, fun hne => absurd rfl hne⟩ (.inl hall)
    · simp [after, h.responseData]
    · simp [after]
  · constructor
    · rintro ⟨hcomposed, -⟩
      have hdata := hcomposed.responseData
      simp only [after, Option.isNone_some, Bool.false_eq_true, if_false, ← h.responseData] at hdata
      exact .inr (List.append_right_eq_self.mp hdata)
    · rintro (hall | hnothing)
      · exact absurd hall hfail
      · rw [hnothing, List.append_nil]
        exact ⟨⟨h.responseData, h.stage⟩, fun _ => rfl⟩

/-- A call reports no exception and leads to its stage, or reports one and keeps the stage. -/
theorem stage_of_perform {call : WriterCall} {state state' : HttpURLHandlerState}
    {oom : ℕ → Bool} {e : ExceptionPointer} (h : call.perform state oom = .ok (e, state')) :
    e = none ∧ state'.stage = call.next ∨ e ≠ none ∧ state'.stage = state.stage := by
  have hstage := WriterCall.stage_eq_of_perform h
  have hwrites : ∃ n data, state.Writes oom n data call.next (call.perform state oom) := by
    cases call with
    | writeStatusLine status => exact ⟨3, _, state.writes_writeStatusLine oom status hstage⟩
    | writeHeader name value => exact ⟨4, _, state.writes_writeHeader oom name value hstage⟩
    | endHeader => exact ⟨1, _, state.writes_endHeader oom hstage⟩
    | writeBody data => exact ⟨2, _, state.writes_writeBody oom data hstage⟩
  obtain ⟨n, data, hwrites⟩ := hwrites
  rw [h] at hwrites
  rcases hwrites with ⟨-, heq⟩ | ⟨-, data', heq⟩
  · obtain ⟨rfl, rfl⟩ := Prod.mk.inj (Except.ok.inj heq)
    exact .inl ⟨rfl, rfl⟩
  · obtain ⟨rfl, rfl⟩ := Prod.mk.inj (Except.ok.inj heq)
    exact .inr ⟨Option.some_ne_none _, rfl⟩

/-- A step is a call. -/
theorem perform_of_step {start : HttpURLHandlerState} {w t : Writer}
    {l : WriterCall × (ℕ → Bool)} (h : (writer start).step w l = some t) :
    ∃ e state, l.1.perform w.state l.2 = .ok (e, state) ∧ t = w.after l.1 e state := by
  rw [writer] at h
  dsimp only at h
  split at h
  · cases h
  · rename_i e state hperform
    exact ⟨e, state, hperform, (Option.some.inj h).symm⟩

/-- **The stage is right** in every run: it is where the calls that succeeded lead. -/
theorem stage_of_run {start : HttpURLHandlerState} {w : Writer}
    (hrun : (writer start).Reachable w) : w.state.stage = stageAfter w.done := by
  refine hrun.invariant (I := fun w => w.state.stage = stageAfter w.done) rfl
    fun w l t hw hstep => ?_
  obtain ⟨e, state, hperform, rfl⟩ := perform_of_step hstep
  rcases stage_of_perform hperform with ⟨rfl, hstage⟩ | ⟨hne, hstage⟩
  · simp [after, hstage]
  · simp [after, hne, hstage, hw]

/-- A handler all of whose calls leave no fragment is composed. -/
theorem composed_of_run {start : HttpURLHandlerState} {w : Writer}
    (hrun : (writer start).RunWhere (fun _ l => l.1.spares l.2 = true) (writer start).init w) :
    w.Composed := by
  refine hrun.invariant (composed_init start) fun w l t hw hspares hstep => ?_
  obtain ⟨e, state, hperform, rfl⟩ := perform_of_step hstep
  exact ((hw.after_iff hperform).mpr hspares).1

end Writer

/-- **The response is composed under failures**, in every run in which each call that fails does
so before it has written anything: `responseData` holds the encodings of the calls that
succeeded, `stage` is where they lead, and a call that reports an exception changes nothing. A
call that fails later ends that. -/
theorem writer_composes_iff (start : HttpURLHandlerState) (w : Writer)
    (hrun : (writer start).RunWhere (fun _ l => l.1.spares l.2 = true) (writer start).init w) :
    w.Composed ∧ ∀ call oom e state, call.perform w.state oom = .ok (e, state) →
      (((w.after call e state).Composed ∧ (e ≠ none → state = w.state)) ↔
        call.spares oom = true) :=
  ⟨Writer.composed_of_run hrun, fun _ _ _ _ hperform =>
    (Writer.composed_of_run hrun).after_iff hperform⟩

/-- A state that no request has been read for. -/
def blankState : HttpURLHandlerState :=
  { urlPath := [], urlQuery := [], urlFragment := [], requestHeaderView := {} }

/-- A status line and a header line, which first finds no memory for its name. -/
def retried : List (WriterCall × (ℕ → Bool)) :=
  [(.writeStatusLine .ok, fun _ => false), (.writeHeader (text "A") (text "b"), fun i => i = 0),
    (.writeHeader (text "A") (text "b"), fun _ => false)]

/-- The header line is written once. -/
theorem writer_composes_retried :
    ∃ w : Writer, w.done = [.writeStatusLine .ok, .writeHeader (text "A") (text "b")] ∧
      w.Composed := by
  obtain ⟨w, hrun, hdone⟩ := Machine.exists_runWhere (M := writer blankState)
    (G := fun _ l => l.1.spares l.2 = true) (s := (writer blankState).init)
    (P := fun w => w.done = [.writeStatusLine .ok, .writeHeader (text "A") (text "b")]) retried
    (by decide)
  exact ⟨w, hdone, (writer_composes_iff blankState w hrun).1⟩

/-- **A header line that fails behind its name, and is written again**, leaves the name
there twice. -/
theorem writer_not_composed :
    ∃ w ∈ (writer blankState).execWhere (fun _ _ => True) (writer blankState).init
        [(.writeStatusLine .ok, fun _ => false),
          (.writeHeader (text "A") (text "b"), fun i => i = 1),
          (.writeHeader (text "A") (text "b"), fun _ => false)],
      w.state.responseData = text "HTTP/1,1 200 OK\r\nAA: b\r\n" ∧ ¬w.Composed := by
  refine ⟨_, rfl, by decide, fun h => ?_⟩
  have hdata := h.responseData
  revert hdata
  decide

end Netknot.Http
