import Netknot.Http.Body

/-!
# The End of a Stream

A client that closes its connection makes every later read complete at once, with zero bytes.
Nothing in the read callback looks for that: in the two parsing states it appends the empty
chunk, finds no separator, and posts the next read. Only the body state posts none, and a
request line across two chunks that does not parse.

The reads of a connection are counted by its states: one is outstanding in each state
`reading` it comes to.

## Main results

* `waiting_run`: in which states a connection waits for more.
* `Waiting.deliver_closed`: when a read that brings nothing is followed by another.
* `reads_le_length`: each read that completes is followed by one more at most.
* `stream_ends_iff`: when the reads of a stream that ends come to an end.
* `reads_forever`: otherwise they never do.
-/

namespace Netknot.Http

open Search

namespace Connection

/-- A read is outstanding. -/
def isReading : Connection → Bool
  | .reading _ _ => true
  | .responding _ _ _ | .idle _ _ _ | .terminated _ => false

/-- The connection after these reads completed, each with what goes wrong in its callback. -/
def run (env : Env) (conn : Connection) (steps : List (Choices × Bytes)) : Connection :=
  steps.foldl (fun conn step => conn.deliver env step.1 step.2) conn

/-- **How many reads were posted**, counted by the states in which one is outstanding. -/
def reads (env : Env) (conn : Connection) : List (Choices × Bytes) → ℕ
  | [] => conn.isReading.toNat
  | step :: steps => conn.isReading.toNat + reads env (conn.deliver env step.1 step.2) steps

/-- The bytes these reads bring. -/
def stream (steps : List (Choices × Bytes)) : Bytes := (steps.map Prod.snd).flatten

/-- The reads of a client that has closed the connection: they bring nothing. -/
def closed (zs : List Choices) : List (Choices × Bytes) := zs.map fun ch => (ch, [])

/-- **The reads end when the client closes the connection**: none is outstanding, or it is the
read into the body, or the request line is complete and does not parse. -/
def EndsReading : Connection → Prop
  | .reading reader _ =>
      reader.parseStatus = .body ∨
        reader.parseStatus = .initial ∧ (find crlf reader.requestLine).isSome = true ∧
          ∀ view, parseHttpRequestLine reader.requestLine ≠ .ok (some view)
  | .responding _ _ _ | .idle _ _ _ | .terminated _ => True

/-- Where the reader is while a read is outstanding: a header block that is awaited holds no
blank line, and before the request line is complete it is empty. -/
def Waiting : Connection → Prop
  | .reading reader _ =>
      reader.parseStatus = .body ∨
        reader.parseStatus = .initial ∧ reader.requestHeader = [] ∨
        reader.parseStatus = .header ∧ find blankLine reader.requestHeader = none
  | .responding _ _ _ | .idle _ _ _ | .terminated _ => True

end Connection

/-! ### In which state a call waits for more -/

namespace HttpReadAsyncCallback

/-- What a call says about the reader when it posts a read. -/
structure Waits (result : Result) : Prop where
  read : result.posted = some .read →
    result.reader.parseStatus = .initial ∧ result.reader.requestHeader = [] ∨
      result.reader.parseStatus = .header ∧ find blankLine result.reader.requestHeader = none
  body : ∀ n, result.posted = some (.body n) → result.reader.parseStatus = .body

section

variable {env : Env} {ch : Choices}

/-- A call that posts no read waits for nothing. -/
theorem waits_of_ne {result : Result} (hread : result.posted ≠ some .read)
    (hbody : ∀ n, result.posted ≠ some (.body n)) : Waits result :=
  ⟨fun h => absurd h hread, fun n h => absurd h (hbody n)⟩

/-- A call that awaits the request line or the header block waits for it, whether its read is
posted or not. -/
theorem waits_reads {reader : HttpReadAsyncCallback}
    (h : reader.parseStatus = .initial ∧ reader.requestHeader = [] ∨
      reader.parseStatus = .header ∧ find blankLine reader.requestHeader = none) :
    Waits (reader.reads ch .read) := by
  refine ⟨fun _ => h, fun n hn => ?_⟩
  rw [reads] at hn
  dsimp only at hn
  split at hn <;> cases hn

/-- A call that awaits the body waits for it, whether its read is posted or not. -/
theorem waits_readsBody {reader : HttpReadAsyncCallback} {n : ℕ}
    (h : reader.parseStatus = .body) : Waits (reader.reads ch (.body n)) := by
  refine ⟨fun hn => ?_, fun _ _ => h⟩
  rw [reads] at hn
  dsimp only at hn
  split at hn <;> cases hn

/-- A call waits where its way out has left the reader. -/
theorem Exit.waits {old : HttpReadAsyncCallback} {view : HttpRequestLineView}
    {log : List Action} {b : Bool} {x : Ending} {y : Except Terminate Result}
    (h : Exit env ch old view log b x y)
    (hold : old.parseStatus = .initial → old.requestHeader = []) : Returns Waits y := by
  cases h with
  | terminated hwhy => exact trivial
  | returns e h => exact waits_of_ne (fun hread => by cases hread) fun n hbody => by cases hbody
  | readsLine h hinitial hstatus hheader =>
      exact waits_reads (.inl ⟨hstatus, hheader.trans (hold hinitial)⟩)
  | readsHeader h hstatus hblank => exact waits_reads (.inr ⟨hstatus, hblank⟩)
  | readsBody n h hstatus => exact waits_readsBody hstatus
  | answers h hview hanswers =>
      refine hanswers.settles.imp fun result hsettles => ?_
      rcases hsettles.posted with hnone | ⟨data, hdata⟩
      · exact waits_of_ne (by simp [hnone]) (by simp [hnone])
      · exact waits_of_ne (by simp [hdata]) (by simp [hdata])

end

end HttpReadAsyncCallback

namespace Connection

section

variable {env : Env}

/-- A call leaves the reader where it waits. -/
theorem waiting_ofResult {x : Except Terminate Result}
    (h : Returns HttpReadAsyncCallback.Waits x) : (ofResult x).Waiting := by
  cases x with
  | error why => exact trivial
  | ok result =>
      rw [ofResult]
      split
      · exact .inr (h.read ‹_›)
      · exact .inl (h.body _ ‹_›)
      · exact trivial
      · exact trivial

/-- A connection waits again when a read completes and its callback runs. -/
theorem Waiting.deliver {conn : Connection} (h : conn.Waiting) (ch : Choices) (chunk : Bytes) :
    (conn.deliver env ch chunk).Waiting := by
  have hcall : ∀ {reader : HttpReadAsyncCallback} {buffer : Buffer},
      (Connection.reading reader buffer).Waiting →
        ((Connection.reading reader buffer).call env ch chunk).Waiting := by
    intro reader buffer hwaiting
    rw [call]
    refine waiting_ofResult ?_
    have hexit := @HttpReadAsyncCallback.exit_onStatusChanged env ch [] reader .done chunk
    refine hexit.waits fun hinitial => ?_
    rcases hwaiting with hstatus | ⟨-, hheader⟩ | ⟨hstatus, -⟩
    · exact absurd (hinitial.symm.trans hstatus) HttpParseStatus.noConfusion
    · exact hheader
    · exact absurd (hinitial.symm.trans hstatus) HttpParseStatus.noConfusion
  cases conn with
  | reading reader buffer =>
      cases buffer with
      | accept => exact hcall h
      | body => exact hcall h
  | responding reader dispatch data | idle reader dispatch e | terminated why => exact trivial

/-- **A connection is always in a state in which it waits** for more, whatever reads completed. -/
theorem waiting_run (steps : List (Choices × Bytes)) : (run env .fresh steps).Waiting := by
  have hrun : ∀ conn : Connection, conn.Waiting → (run env conn steps).Waiting := by
    induction steps with
    | nil => exact fun conn h => h
    | cons step steps ih => exact fun conn h => ih _ (h.deliver step.1 step.2)
  exact hrun .fresh (.inr (.inl ⟨rfl, rfl⟩))

/-! ### A read that brings nothing -/

/-- A read that brings nothing writes nothing. -/
theorem deliver_nil (conn : Connection) (ch : Choices) :
    conn.deliver env ch [] = conn.call env ch [] := by
  have harrive : conn.arrive [] = conn := by
    cases conn with
    | reading reader buffer => cases buffer <;> rfl
    | responding reader dispatch data | idle reader dispatch e | terminated why => rfl
  rw [deliver, harrive]

/-- The dispatch posts no read. -/
theorem isReading_of_settles {reader : HttpReadAsyncCallback} {x : Except Terminate Result}
    (h : Returns reader.Settles x) : (ofResult x).isReading = false := by
  cases x with
  | error why => rfl
  | ok result =>
      obtain ⟨-, hnone | ⟨data, hdata⟩⟩ := h
      · simp only [ofResult, hnone, isReading]
      · simp only [ofResult, hdata, isReading]

/-- In a state where the reads end, the outstanding one is the last. -/
theorem EndsReading.deliver {conn : Connection} (h : conn.EndsReading) (ch : Choices) :
    (conn.deliver env ch []).isReading = false := by
  rw [deliver_nil]
  cases conn with
  | responding reader dispatch data | idle reader dispatch e | terminated why => rfl
  | reading reader buffer =>
      rcases h with hstatus | ⟨hstatus, hfound, hview⟩
      · simp only [call, HttpReadAsyncCallback.onStatusChanged, hstatus]
        exact isReading_of_settles HttpReadAsyncCallback.returns_onBody
      · obtain ⟨off, hoff⟩ := Option.isSome_iff_exists.mp hfound
        have hempty : find crlf ([] : Bytes) = none := by decide
        simp only [call, HttpReadAsyncCallback.onStatusChanged, hstatus,
          HttpReadAsyncCallback.onInitial, hempty, List.append_nil, hoff]
        split
        · rfl
        · rw [HttpReadAsyncCallback.onRequestLine]
          cases hparse : parseHttpRequestLine reader.requestLine with
          | error why => rfl
          | ok found =>
              cases found with
              | none => rfl
              | some view => exact absurd hparse (hview view)

/-- A reader that waits for the blank line goes on waiting when nothing comes. -/
theorem onHeader_nil {reader : HttpReadAsyncCallback} (hstatus : reader.parseStatus = .header)
    (hheader : find blankLine reader.requestHeader = none) :
    (ofResult (reader.onHeader env .succeed [])).isReading = true ∧
      ¬(ofResult (reader.onHeader env .succeed [])).EndsReading := by
  have hall : find blankLine (reader.requestHeader ++ []) = none := by rwa [List.append_nil]
  rw [HttpReadAsyncCallback.onHeader_missing succeed_oom (by decide) hall]
  refine ⟨rfl, ?_⟩
  rintro (hbody | ⟨hinitial, -⟩)
  · exact absurd (hstatus.symm.trans hbody) HttpParseStatus.noConfusion
  · exact absurd (hstatus.symm.trans hinitial) HttpParseStatus.noConfusion

/-- **In every other state another read is posted**, and there the reads do not end either. -/
theorem Waiting.deliver_closed {conn : Connection} (h : conn.Waiting) (hends : ¬conn.EndsReading) :
    (conn.deliver env .succeed []).isReading = true ∧
      ¬(conn.deliver env .succeed []).EndsReading := by
  rw [deliver_nil]
  cases conn with
  | responding reader dispatch data | idle reader dispatch e | terminated why =>
      exact absurd trivial hends
  | reading reader buffer =>
      rcases h with hstatus | ⟨hstatus, hheader⟩ | ⟨hstatus, hheader⟩
      · exact absurd (.inl hstatus) hends
      · simp only [call, HttpReadAsyncCallback.onStatusChanged, hstatus]
        have hempty : find crlf ([] : Bytes) = none := by decide
        cases hfind : find crlf reader.requestLine with
        | none =>
            have hall : find crlf (reader.requestLine ++ []) = none := by rwa [List.append_nil]
            rw [HttpReadAsyncCallback.onInitial_missing succeed_oom hempty hall]
            refine ⟨rfl, ?_⟩
            rintro (hbody | ⟨-, hfound, -⟩)
            · exact absurd (hstatus.symm.trans hbody) HttpParseStatus.noConfusion
            · have hnone : (find crlf (reader.requestLine ++ [])).isSome = true := hfound
              rw [hall] at hnone
              cases hnone
        | some off =>
            have hall : find crlf (reader.requestLine ++ []) = some off := by
              rwa [List.append_nil]
            rw [HttpReadAsyncCallback.onInitial_across succeed_oom hempty hall]
            obtain ⟨view, hview⟩ : ∃ view,
                parseHttpRequestLine reader.requestLine = .ok (some view) := by
              by_contra hne
              exact hends (.inr ⟨hstatus, by rw [hfind]; rfl, fun view hview => hne ⟨view, hview⟩⟩)
            simp only [HttpReadAsyncCallback.onRequestLine, List.append_nil, hview, bind,
              Except.bind]
            refine onHeader_nil rfl ?_
            rw [hheader]
            decide
      · simp only [call, HttpReadAsyncCallback.onStatusChanged, hstatus]
        exact onHeader_nil hstatus hheader

/-! ### Counting the reads -/

/-- A connection without an outstanding read gets none. -/
theorem deliver_of_not_reading {conn : Connection} (h : conn.isReading = false) (ch : Choices)
    (chunk : Bytes) : conn.deliver env ch chunk = conn := by
  cases conn with
  | reading reader buffer => cases h
  | responding reader dispatch data | idle reader dispatch e | terminated why => rfl

/-- **Each read that completes is followed by one more at most.** -/
theorem reads_le_length (conn : Connection) (steps : List (Choices × Bytes)) :
    conn.reads env steps ≤ steps.length + 1 := by
  induction steps generalizing conn with
  | nil =>
      rw [reads]
      exact Bool.toNat_le _
  | cons step steps ih =>
      have hone : conn.isReading.toNat ≤ 1 := Bool.toNat_le _
      have hrest := ih (conn.deliver env step.1 step.2)
      rw [reads, List.length_cons]
      omega

/-- There are no reads without an outstanding one. -/
theorem reads_of_not_reading {conn : Connection} (h : conn.isReading = false)
    (steps : List (Choices × Bytes)) : conn.reads env steps = 0 := by
  induction steps with
  | nil => rw [reads, h, Bool.toNat_false]
  | cons step steps ih =>
      rw [reads, deliver_of_not_reading h, ih, h]
      rfl

/-- The reads of a run that goes on add up. -/
theorem reads_append (conn : Connection) (steps more : List (Choices × Bytes)) :
    conn.reads env (steps ++ more) + (conn.run env steps).isReading.toNat =
      conn.reads env steps + (conn.run env steps).reads env more := by
  induction steps generalizing conn with
  | nil => exact Nat.add_comm _ _
  | cons step steps ih =>
      have hrest := ih (conn.deliver env step.1 step.2)
      simp only [List.cons_append, reads, run, List.foldl_cons] at hrest ⊢
      omega

/-- A stream of `k` bytes brings at most `k` reads to an end. -/
theorem length_le_stream {steps : List (Choices × Bytes)} (h : ∀ step ∈ steps, step.2 ≠ []) :
    steps.length ≤ (stream steps).length := by
  induction steps with
  | nil => exact le_rfl
  | cons step steps ih =>
      have hpos : 0 < step.2.length := List.length_pos_iff.mpr (h step List.mem_cons_self)
      have hrest := ih fun step' hstep' => h step' (List.mem_cons_of_mem step hstep')
      rw [stream] at hrest
      rw [stream, List.length_cons, List.map_cons, List.flatten_cons, List.length_append]
      omega

/-- After the last read none is outstanding, whatever completes. -/
theorem EndsReading.run_closed {conn : Connection} (h : conn.EndsReading) {zs : List Choices}
    (hzs : zs ≠ []) : (conn.run env (closed zs)).isReading = false := by
  obtain ⟨ch, zs, rfl⟩ := List.exists_cons_of_ne_nil hzs
  have hend : (conn.deliver env ch []).isReading = false := h.deliver ch
  have hstays : ∀ steps : List (Choices × Bytes),
      ((conn.deliver env ch []).run env steps).isReading = false := by
    intro steps
    induction steps with
    | nil => exact hend
    | cons step steps ih =>
        rw [run, List.foldl_cons, deliver_of_not_reading hend]
        exact ih
  exact hstays (closed zs)

/-- The reads of a closed connection end with the outstanding one. -/
theorem EndsReading.reads_closed {conn : Connection} (h : conn.EndsReading) (zs : List Choices) :
    conn.reads env (closed zs) = conn.isReading.toNat := by
  cases zs with
  | nil => rfl
  | cons ch zs =>
      rw [closed, List.map_cons, reads, reads_of_not_reading (h.deliver ch), Nat.add_zero]

/-- **When the reads of a stream that ends come to an end.** A client sends `k` bytes, in any
pieces, and closes the connection; whatever goes wrong in the callbacks, no read is posted
after one that brought nothing, and at most `k + 1` altogether, if and only if the connection
it leaves behind is not in a state that waits for a request line or a header block. -/
theorem stream_ends_iff {steps : List (Choices × Bytes)} (hsteps : ∀ step ∈ steps, step.2 ≠ []) :
    (∀ zs : List Choices,
      (zs ≠ [] → ((run env .fresh steps).run env (closed zs)).isReading = false) ∧
        reads env .fresh (steps ++ closed zs) ≤ (stream steps).length + 1) ↔
      (run env .fresh steps).EndsReading := by
  constructor
  · intro h
    by_contra hends
    obtain ⟨hreading, -⟩ := (waiting_run steps).deliver_closed hends
    exact absurd (hreading.symm.trans ((h [.succeed]).1 (List.cons_ne_nil _ _)))
      Bool.noConfusion
  · intro hends zs
    refine ⟨hends.run_closed, ?_⟩
    have happend := @reads_append env .fresh steps (closed zs)
    have hlength := @reads_le_length env .fresh steps
    have hbytes := length_le_stream hsteps
    rw [hends.reads_closed] at happend
    omega

/-- **Otherwise they never do**: as long as nothing goes wrong, each read that brings nothing
is followed by another. -/
theorem reads_forever {steps : List (Choices × Bytes)}
    (h : ¬(run env .fresh steps).EndsReading) (n : ℕ) :
    (run env .fresh steps).reads env (closed (List.replicate n .succeed)) = n + 1 := by
  have hloop : ∀ conn : Connection, conn.Waiting → conn.isReading = true → ¬conn.EndsReading →
      conn.reads env (closed (List.replicate n .succeed)) = n + 1 := by
    induction n with
    | zero =>
        intro conn hwaiting hreading hends
        rw [List.replicate_zero, closed, List.map_nil, reads, hreading]
        rfl
    | succ n ih =>
        intro conn hwaiting hreading hends
        obtain ⟨hnext, hends'⟩ := @Waiting.deliver_closed env conn hwaiting hends
        have hrest := ih _ (hwaiting.deliver .succeed []) hnext hends'
        rw [closed] at hrest
        rw [List.replicate_succ, closed, List.map_cons, reads, hrest, hreading, Bool.toNat_true]
        exact Nat.add_comm 1 (n + 1)
  refine hloop _ (waiting_run steps) ?_ h
  generalize run env .fresh steps = conn at h
  cases conn with
  | reading reader buffer => rfl
  | responding reader dispatch data | idle reader dispatch e | terminated why =>
      exact absurd trivial h

end

/-- The reads end when a client announces a body and closes the connection. -/
theorem stream_ends_postHead :
    reads .bare .fresh ([(.succeed, postHead)] ++ closed [.succeed, .succeed]) ≤
      postHead.length + 1 := by
  have hends : (run .bare .fresh [(.succeed, postHead)]).EndsReading := by
    obtain ⟨reader, hrun, hstatus⟩ : ∃ reader,
        run .bare .fresh [(.succeed, postHead)] = .reading reader .body ∧
          reader.parseStatus = .body := ⟨_, rfl, rfl⟩
    rw [hrun]
    exact .inl hstatus
  have hbytes : ∀ step ∈ [(Choices.succeed, postHead)], step.2 ≠ [] := by
    intro step hstep
    obtain rfl := List.mem_singleton.mp hstep
    decide
  exact ((stream_ends_iff hbytes).mpr hends [.succeed, .succeed]).2

/-- **A client that closes its connection without having sent anything**: read after read
is posted. -/
theorem closed_without_request :
    ¬∀ (env : Env) (steps : List (Choices × Bytes)), (∀ step ∈ steps, step.2 ≠ []) →
      ∀ zs : List Choices,
        (zs ≠ [] → ((run env .fresh steps).run env (closed zs)).isReading = false) ∧
          reads env .fresh (steps ++ closed zs) ≤ (stream steps).length + 1 := by
  intro h
  have hfalse := (h .bare [] (fun _ hstep => absurd hstep List.not_mem_nil) [.succeed]).1
    (List.cons_ne_nil _ _)
  exact absurd hfalse (by decide)

end Connection

end Netknot.Http
