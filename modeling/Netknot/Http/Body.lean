import Netknot.Http.Fragmentation

/-!
# The Body of a Request

A head with a `Content-Length` announces a body of `n` bytes. The reader posts one read of
`n` bytes into the array `body` and dispatches the request when that read completes, with
however many bytes; and it drops the bytes behind the blank line that came in with the head.
So the body is reassembled when it comes in one read of its own, and in no other case.

## Main results

* `untouched_feed`: nothing is written into `body` before the read into it completes.
* `feed_head`: the head leaves a read into the body outstanding.
* `body_reassembly`: when the body is reassembled.
* `body_not_reassembled`: a read into the body that brings a part of it.
-/

namespace Netknot.Http

open Search

/-! ### Dispatched requests -/

/-- The reader of a request that was dispatched. -/
def Connection.dispatched : Connection → Option HttpReadAsyncCallback
  | .responding reader (some _) _ => some reader
  | .idle reader (some _) _ => some reader
  | _ => none

/-- **The body is reassembled**: the request is dispatched by the last of these reads and not
before, and `body` holds the body then. -/
structure Reassembled (env : Env) (chunks : List Bytes) (body : Bytes) : Prop where
  waits : ∀ part, part <+: chunks → part ≠ chunks →
    (Connection.feed env .fresh part).dispatched = none
  holds : (Connection.feed env .fresh chunks).dispatched.map (·.body) = some (body.map some)

/-- A head that announces a body of `n` bytes. -/
structure Announces (env : Env) (head : Bytes) (n : ℕ) : Prop where
  blank : OnlyAtEnd blankLine head
  parses : ∃ p lineView headerView value, Parses env head p lineView headerView ∧
    headerView.find (text "Transfer-Encoding") = none ∧
    headerView.find (text "Content-Length") = some value ∧
    HttpReadAsyncCallback.contentLength env.sizeMax 0 value = some n
  pos : 0 < n

section

variable {env : Env}

/-- No read is outstanding any more, so nothing comes. -/
theorem feed_of_dispatched {conn : Connection} {reader : HttpReadAsyncCallback}
    (chunks : List Bytes) (h : conn.dispatched = some reader) :
    Connection.feed env conn chunks = conn := by
  induction chunks with
  | nil => rfl
  | cons chunk chunks ih =>
      cases conn with
      | reading reader' buffer => cases h
      | responding reader' dispatch data => exact ih
      | idle reader' dispatch e => exact ih
      | terminated why => cases h

/-- The reader of a request that a call dispatched is that of its result. -/
theorem dispatched_ofResult {x : Except Terminate Result} {reader : HttpReadAsyncCallback}
    (h : (Connection.ofResult x).dispatched = some reader) :
    ∃ result, x = .ok result ∧ result.reader = reader := by
  cases x with
  | error why => cases h
  | ok result =>
      refine ⟨result, rfl, ?_⟩
      simp only [Connection.ofResult] at h
      split at h
      · cases h
      · cases h
      · cases hdispatch : result.dispatch with
        | none => simp [hdispatch, Connection.dispatched] at h
        | some dispatch =>
            rw [hdispatch] at h
            exact Option.some.inj h
      · cases hdispatch : result.dispatch with
        | none => simp [hdispatch, Connection.dispatched] at h
        | some dispatch =>
            rw [hdispatch] at h
            exact Option.some.inj h

/-- A connection whose request was dispatched gives the reader of it. -/
theorem dispatched_of_dispatched {reader : HttpReadAsyncCallback} {result : Result}
    (h : reader.Dispatched result) :
    (Connection.ofResult (.ok result)).dispatched = some reader := by
  obtain ⟨⟨hreader, hposted⟩, hdispatch⟩ := h
  obtain ⟨dispatch, hdispatch⟩ := Option.isSome_iff_exists.mp hdispatch
  rcases hposted with hnone | ⟨data, hdata⟩
  · simp only [Connection.ofResult, hnone, hdispatch, Connection.dispatched, hreader]
  · simp only [Connection.ofResult, hdata, hdispatch, Connection.dispatched, hreader]

/-! ### Before the read into the body -/

/-- Nothing was written into `body` yet. -/
def HttpReadAsyncCallback.Untouched (reader : HttpReadAsyncCallback) : Prop :=
  ∃ n, reader.body = List.replicate n none

/-- While a read is outstanding nothing was written into `body`; and a read into `body` is
outstanding in the body state only. -/
def Connection.Untouched : Connection → Prop
  | .reading reader .accept => reader.Untouched
  | .reading reader .body => reader.Untouched ∧ reader.parseStatus = .body
  | _ => True

/-- A call that resizes `body` at most does not write into it. -/
theorem untouched_of_extends {old new : HttpReadAsyncCallback} (hold : old.Untouched)
    (h : old.Extends new) : new.Untouched := by
  obtain ⟨n, hn⟩ := hold
  obtain ⟨k, j, hbody⟩ := h.body
  refine ⟨min k n + j, ?_⟩
  rw [hbody, hn, List.take_replicate, List.replicate_append_replicate]

/-- The step lemma: a call that completes a read on the buffer of the accept callback writes
nothing into `body`. -/
theorem untouched_ofResult {reader : HttpReadAsyncCallback} {x : Except Terminate Result}
    (hreader : reader.Untouched) (h : Returns reader.Advances x) :
    (Connection.ofResult x).Untouched := by
  cases x with
  | error why => exact trivial
  | ok result =>
      have huntouched := untouched_of_extends hreader h.reader
      simp only [Connection.ofResult]
      split
      · exact huntouched
      · exact ⟨huntouched, h.posted _ ‹_›⟩
      · exact trivial
      · exact trivial

/-- The request is dispatched when the read into `body` completes. -/
theorem deliver_body {reader : HttpReadAsyncCallback} (chunk : Bytes)
    (h : reader.parseStatus = .body) :
    Connection.deliver env .succeed (.reading reader .body) chunk =
      .ofResult ((reader.receive chunk).onBody env .succeed) := by
  simp only [Connection.deliver, Connection.arrive, Connection.call,
    HttpReadAsyncCallback.onStatusChanged, HttpReadAsyncCallback.receive, h]

/-- The dispatch posts no read. -/
theorem untouched_of_settles {reader : HttpReadAsyncCallback} {x : Except Terminate Result}
    (h : Returns reader.Settles x) : (Connection.ofResult x).Untouched := by
  cases x with
  | error why => exact trivial
  | ok result =>
      obtain ⟨-, hnone | ⟨data, hdata⟩⟩ := h
      · simp only [Connection.ofResult, hnone, Connection.Untouched]
      · simp only [Connection.ofResult, hdata, Connection.Untouched]

/-- **Nothing is written into `body`** before the read into it completes. -/
theorem untouched_feed {conn : Connection} (chunks : List Bytes) (h : conn.Untouched) :
    (Connection.feed env conn chunks).Untouched := by
  induction chunks generalizing conn with
  | nil => exact h
  | cons chunk chunks ih =>
      refine ih ?_
      cases conn with
      | reading reader buffer =>
          cases buffer with
          | accept => exact untouched_ofResult h (reader.returns_onStatusChanged .done chunk)
          | body =>
              rw [deliver_body chunk h.2]
              exact untouched_of_settles HttpReadAsyncCallback.returns_onBody
      | responding reader dispatch data => exact trivial
      | idle reader dispatch e => exact trivial
      | terminated why => exact trivial

/-- What a read into `body` brings is in front of what was not written. -/
theorem receive_untouched {reader : HttpReadAsyncCallback} {chunk body : Bytes}
    (h : reader.Untouched) (hbody : (reader.receive chunk).body = body.map some) :
    chunk = body := by
  obtain ⟨n, hn⟩ := h
  rw [HttpReadAsyncCallback.receive, hn, List.drop_replicate] at hbody
  dsimp only at hbody
  have hall : n - chunk.length = 0 := by
    by_contra hne
    have hmem : none ∈ body.map some := by
      rw [← hbody]
      exact List.mem_append_right _ (List.mem_replicate.mpr ⟨hne, rfl⟩)
    simp at hmem
  rw [hall, List.replicate_zero, List.append_nil] at hbody
  exact List.map_injective_iff.mpr (fun _ _ => Option.some.inj) hbody

/-- Nothing that was not written is a body. -/
theorem Untouched.ne_map {reader : HttpReadAsyncCallback} {body : Bytes}
    (h : reader.Untouched) (hbody : body ≠ []) : reader.body ≠ body.map some := by
  obtain ⟨n, hn⟩ := h
  obtain ⟨b, rest, rfl⟩ := List.exists_cons_of_ne_nil hbody
  intro heq
  have hmem : some b ∈ List.replicate n none := by
    rw [← hn, heq]
    exact List.mem_cons_self
  simp [List.mem_replicate] at hmem

/-- A request that is dispatched by a read on the buffer of the accept callback has a `body` into
which nothing was written. -/
theorem untouched_of_dispatched {old reader : HttpReadAsyncCallback} {chunk : Bytes}
    (hold : old.Untouched)
    (h : (Connection.deliver env .succeed (.reading old .accept) chunk).dispatched =
      some reader) : reader.Untouched := by
  obtain ⟨result, hresult, rfl⟩ := dispatched_ofResult h
  have hadvances : old.Advances result :=
    (old.returns_onStatusChanged .done chunk).of_eq_ok hresult
  exact untouched_of_extends hold hadvances.reader

/-- A request that a read into `body` dispatches holds the bytes of that read. -/
theorem receive_of_dispatched {old reader : HttpReadAsyncCallback} {chunk : Bytes}
    (hold : old.parseStatus = .body)
    (h : (Connection.deliver env .succeed (.reading old .body) chunk).dispatched =
      some reader) : reader = old.receive chunk := by
  rw [deliver_body chunk hold] at h
  obtain ⟨result, hresult, rfl⟩ := dispatched_ofResult h
  have hsettles : (old.receive chunk).Settles result :=
    HttpReadAsyncCallback.returns_onBody.of_eq_ok hresult
  exact hsettles.reader

/-- **A reassembled body came in one read**, the last. -/
theorem Reassembled.exists_concat {chunks : List Bytes} {body : Bytes}
    (h : Reassembled env chunks body) (hbody : body ≠ []) : ∃ part, chunks = part ++ [body] := by
  obtain ⟨hwaits, hholds⟩ := h
  obtain ⟨reader, hreader, hmap⟩ := Option.map_eq_some_iff.mp hholds
  rcases List.eq_nil_or_concat' chunks with rfl | ⟨part, chunk, rfl⟩
  · cases hreader
  · refine ⟨part, ?_⟩
    have hpart := hwaits part (List.prefix_append _ _) (by simp)
    have huntouched : (Connection.feed env .fresh part).Untouched :=
      untouched_feed part ⟨0, rfl⟩
    rw [feed_append] at hreader
    cases hconn : Connection.feed env .fresh part with
    | reading old buffer =>
        rw [hconn] at hreader huntouched
        cases buffer with
        | accept =>
            exact absurd hmap (Untouched.ne_map (untouched_of_dispatched huntouched hreader) hbody)
        | body =>
            rw [receive_of_dispatched huntouched.2 hreader] at hmap
            rw [receive_untouched huntouched.1 hmap]
    | responding old dispatch data =>
        rw [hconn] at hreader hpart
        exact absurd (hpart.symm.trans hreader) (by simp)
    | idle old dispatch e =>
        rw [hconn] at hreader hpart
        exact absurd (hpart.symm.trans hreader) (by simp)
    | terminated why =>
        rw [hconn] at hreader hpart
        exact absurd (hpart.symm.trans hreader) (by simp)

/-! ### The read into the body -/

/-- The head leaves a read into `body` outstanding. -/
theorem feed_head {head : Bytes} {n : ℕ} {chunks : List Bytes} (hhead : Announces env head n)
    (hchunks : Delivers chunks head) (hcuts : ∀ k ∈ cuts chunks, Harmless env head k) :
    ∃ reader : HttpReadAsyncCallback,
      Connection.feed env .fresh chunks = .reading reader .body ∧
        reader.parseStatus = .body ∧ reader.isChunked = false ∧
        reader.body = List.replicate n none := by
  obtain ⟨hblank, ⟨p, lineView, headerView, value, hparses, hencoding, hlength, hvalue⟩, hpos⟩ :=
    hhead
  obtain ⟨p', hp', hshape⟩ := exists_lineEnd hblank
  obtain rfl : p = p' := Option.some.inj (hparses.lineEnd.symm.trans hp')
  have hlong : p + 6 ≤ head.length := by
    rcases hshape with hshort | hlong
    · have hheaders := hparses.headers
      have hend : head.length - 2 = p + 2 := by omega
      rw [hend, slice_self] at hheaders
      obtain rfl : ({} : HttpRequestHeaderView) = headerView :=
        Option.some.inj (Except.ok.inj hheaders)
      cases hlength
    · exact hlong
  rw [feed_of_harmless hblank hparses.lineEnd hchunks hcuts, progress_end hlong,
    hparses.behindLine_eq,
    HttpReadAsyncCallback.onHeaderBlock_parsed succeed_oom hparses.headers hencoding,
    HttpReadAsyncCallback.onContentLength_some succeed_oom hlength hvalue hpos rfl rfl]
  exact ⟨_, rfl, rfl, rfl, rfl⟩

/-- A body that comes in one read, behind a head whose cuts do no harm, is reassembled. -/
theorem reassembled_of_concat {head body : Bytes} {n : ℕ} {part : List Bytes}
    (hhead : Announces env head n) (hlen : body.length = n) (hchunks : Delivers part head)
    (hcuts : ∀ k ∈ cuts part, Harmless env head k) : Reassembled env (part ++ [body]) body := by
  obtain ⟨reader, hfeed, hstatus, hchunked, hbody⟩ := feed_head hhead hchunks hcuts
  constructor
  · intro front hfront hne
    rcases List.prefix_concat_iff.mp hfront with rfl | ⟨rest, rfl⟩
    · exact absurd rfl hne
    · cases hdispatched : (Connection.feed env .fresh front).dispatched with
      | none => rfl
      | some reader' =>
          rw [feed_append, feed_of_dispatched rest hdispatched] at hfeed
          rw [hfeed] at hdispatched
          cases hdispatched
  · obtain ⟨result, hresult, hdispatched⟩ : ∃ result,
        (reader.receive body).onBody env .succeed = .ok result ∧
          (reader.receive body).Dispatched result :=
      HttpReadAsyncCallback.onBody_succeed succeed_oom env hchunked
    have hlast : Connection.feed env .fresh (part ++ [body]) = .ofResult (.ok result) := by
      rw [feed_append, hfeed, ← hresult]
      exact deliver_body body hstatus
    rw [hlast, dispatched_of_dispatched hdispatched, Option.map_some,
      HttpReadAsyncCallback.receive, hbody, List.drop_replicate, hlen, Nat.sub_self,
      List.replicate_zero, List.append_nil]

/-! ### The result -/

/-- **Body reassembly**: a body that is reassembled came in one read of its own; and one that
came so is reassembled, when no cut of the head does harm. -/
theorem body_reassembly {head body : Bytes} {n : ℕ} {chunks : List Bytes}
    (hhead : Announces env head n) (hlen : body.length = n)
    (hchunks : Delivers chunks (head ++ body)) :
    (Reassembled env chunks body → ∃ part, chunks = part ++ [body]) ∧
    ((∀ k ∈ cuts chunks, Harmless env head k) → (∃ part, chunks = part ++ [body]) →
      Reassembled env chunks body) := by
  constructor
  · intro h
    refine h.exists_concat ?_
    rintro rfl
    exact absurd hhead.pos (by simp [← hlen])
  · rintro hcuts ⟨part, rfl⟩
    obtain ⟨hflatten, hne⟩ := hchunks
    rw [List.flatten_append, List.flatten_singleton] at hflatten
    refine reassembled_of_concat hhead hlen
      ⟨List.append_cancel_right hflatten, fun c hc => hne c (by simp [hc])⟩ ?_
    exact fun k hk => hcuts k (cuts_subset_of_part (List.prefix_append _ _) hk)

end

/-- The head of a request with a body of two bytes. -/
def postHead : Bytes := text "POST /a HTTP/1.1\r\nContent-Length: 12\r\n\r\n"

theorem announces_postHead : Announces .bare postHead 2 where
  blank := onlyAtEnd_of_find (by decide) (by decide : find blankLine postHead = some 36)
    (by decide)
  parses := ⟨16, _, _, _, ⟨by decide, rfl, rfl⟩, by decide, rfl, by decide⟩
  pos := by decide

/-- A body that comes in one read is reassembled. -/
theorem body_reassembly_postHead :
    Reassembled .bare [postHead, text "hi"] (text "hi") :=
  (body_reassembly announces_postHead rfl ⟨by decide, by decide⟩).2 (by decide)
    ⟨[postHead], rfl⟩

/-- **A read into the body that brings a part of it** dispatches the request. -/
theorem body_not_reassembled :
    ¬∀ (env : Env) (head body : Bytes) (n : ℕ) (chunks : List Bytes), Announces env head n →
      body.length = n → Delivers chunks (head ++ body) →
      (∀ chunk ∈ chunks, chunk.length ≤ 4096) → Reassembled env chunks body := fun h => by
  have hreassembled := h .bare postHead (text "hi") 2 [postHead, text "h", text "i"]
    announces_postHead rfl ⟨by decide, by decide⟩ (by decide)
  have hwaits := hreassembled.waits [postHead, text "h"] (by decide) (by decide)
  exact absurd hwaits (by decide)

end Netknot.Http
