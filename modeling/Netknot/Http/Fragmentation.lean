import Netknot.Http.Exits

/-!
# Cutting a Request into Reads

What a connection holds after the first `k` bytes of a request is computed from the bytes
alone, by `progress`; a read that takes the bytes from `k` to `m` takes `progress` at `k` to
`progress` at `m`. So the cuts between the reads do not matter — as long as none of them is
in one of the places where the reader goes wrong: inside or right behind the end of the
request line, and inside the blank line.

## Main results

* `deliver_progress`, `feed_eq_progress`: the step lemma and the run lemma, away from these
  places.
* `feed_of_harmless`: a delivery whose cuts are all harmless leaves what its bytes determine.
* `strays_of_cut_lineEnd`: a cut in the end of the request line, or right behind it, changes the
  outcome of an accepted head.
* `outcome_eq_iff_harmless`: away from there a delivery has the outcome of the text exactly when
  its cuts are harmless, whether the head is accepted or not.
* `fragmentation`: the outcomes of two deliveries.
* `cut_matters`: a cut right behind the request line.
-/

namespace Netknot.Http

open Search

/-! ### Outcomes and cuts -/

/-- The outcome of a request: what was parsed and how it was dispatched, or why the
process ended. -/
inductive Outcome
  | parsed (requestLine : Bytes) (requestLineView : HttpRequestLineView)
      (requestHeaderView : HttpRequestHeaderView) (parseStatus : HttpParseStatus)
      (dispatch : Option Dispatch)
  | rejected (why : Terminate)
  deriving DecidableEq, Repr

/-- What the outcome shows of a reader. -/
def HttpReadAsyncCallback.outcome (reader : HttpReadAsyncCallback)
    (dispatch : Option Dispatch) : Outcome :=
  .parsed reader.requestLine reader.requestLineView reader.requestHeaderView
    reader.parseStatus dispatch

/-- The outcome of the request of a connection. -/
def Connection.outcome : Connection → Outcome
  | .reading reader _ => reader.outcome none
  | .responding reader dispatch _ => reader.outcome dispatch
  | .idle reader dispatch _ => reader.outcome dispatch
  | .terminated why => .rejected why

/-- The positions between the reads, with the start and the end. -/
def cuts (chunks : List Bytes) : List ℕ := chunks.inits.map fun part => part.flatten.length

/-- A cut of the text `s` at position `k` is not inside the end of the request line, nor right
behind it. -/
def OffLineEnd (s : Bytes) (k : ℕ) : Prop := ∀ p ∈ find crlf s, k ≠ p + 1 ∧ k ≠ p + 2

/-- The parsers find the request line, which ends at `p`, and the header block of the text `s`:
in front of the blank line, or with the blank line behind it. Otherwise the process ends before
the blank line is looked for, or with the header block, whatever is taken for its end. -/
def BlankLineMatters (env : Env) (s : Bytes) (p : ℕ) : Prop :=
  Found (parseHttpRequestLine (s.take p)) ∧
    (Found (parseHttpRequestHeader env.duplicate (fun _ => false)
        (slice s (p + 2) (s.length - 2))) ∨
      Found (parseHttpRequestHeader env.duplicate (fun _ => false) (slice s (p + 2) s.length)))

/-- A cut of the text `s` at position `k` does no harm: it is not inside the end of the
request line nor right behind it; and it is not inside the blank line if there are header lines
and the parsers come to it. -/
def Harmless (env : Env) (s : Bytes) (k : ℕ) : Prop :=
  ∀ p ∈ find crlf s, (k ≠ p + 1 ∧ k ≠ p + 2) ∧
    (BlankLineMatters env s p → s.length = p + 4 ∨ k + 4 ≤ s.length ∨ s.length ≤ k)

instance (env : Env) (s : Bytes) (p : ℕ) : Decidable (BlankLineMatters env s p) :=
  inferInstanceAs (Decidable (_ ∧ (_ ∨ _)))

instance (env : Env) (s : Bytes) (k : ℕ) : Decidable (Harmless env s k) :=
  inferInstanceAs (Decidable (∀ p ∈ find crlf s, _))

/-- A delivery of `s` in non-empty reads. -/
structure Delivers (chunks : List Bytes) (s : Bytes) : Prop where
  flatten : chunks.flatten = s
  nonempty : ∀ chunk ∈ chunks, chunk ≠ []

/-- A position is a cut when some of the reads make up the text before it. -/
theorem mem_cuts {chunks : List Bytes} {k : ℕ} :
    k ∈ cuts chunks ↔ ∃ part, part <+: chunks ∧ part.flatten.length = k := by
  simp [cuts, List.mem_map, List.mem_inits]

/-! ### The shape of a head -/

/-- A text with one blank line, at its end, has a request line: it ends where the blank line
starts, or before with header lines in between. -/
theorem exists_lineEnd {s : Bytes} (hs : OnlyAtEnd blankLine s) :
    ∃ p, find crlf s = some p ∧ (s.length = p + 4 ∨ p + 6 ≤ s.length) := by
  have hlen : 4 ≤ s.length := hs.1.length_le
  have hblank : OccursAt blankLine s (s.length - 4) := occursAt_of_find (find_of_onlyAtEnd hs)
  have hcrlf : OccursAt crlf s (s.length - 4) :=
    List.IsPrefix.trans (by decide : crlf <+: blankLine) hblank
  cases hp : find crlf s with
  | none => exact absurd hcrlf (find_eq_none_iff.mp hp _)
  | some p =>
      obtain ⟨hocc, -, hfirst⟩ := find_eq_some_iff.mp hp
      refine ⟨p, rfl, ?_⟩
      have hle : p ≤ s.length - 4 := by
        by_contra hlt
        exact hfirst _ (by omega) hcrlf
      have hne : p + 1 ≠ s.length - 4 := by
        intro heq
        have hlf : s[p + 1]? = some 10 := hocc.getElem?_add (i := 1) (by decide)
        have hcr : s[s.length - 4 + 0]? = some 13 := hcrlf.getElem?_add (by decide)
        rw [Nat.add_zero, ← heq, hlf] at hcr
        exact absurd hcr (by decide)
      omega

/-- The reader behind the request line, after `k` bytes of the text. -/
def headReader (s : Bytes) (p : ℕ) (view : HttpRequestLineView) (k : ℕ) :
    HttpReadAsyncCallback where
  parseStatus := .header
  requestLine := s.take p
  requestLineView := view
  requestHeader := slice s (p + 2) k

/-- The connection behind the request line, when the line is parsed. -/
def behindLine (s : Bytes) (p : ℕ) (conn : HttpRequestLineView → Connection) : Connection :=
  match parseHttpRequestLine (s.take p) with
  | .error why => .terminated why
  | .ok none => .terminated .requestLine
  | .ok (some view) => conn view

/-- **What a connection holds** after the first `k` bytes of the text `s`, whose request
line ends at `p`. -/
def progress (env : Env) (s : Bytes) (p k : ℕ) : Connection :=
  if k ≤ p + 1 then .reading { requestLine := s.take k } .accept
  else behindLine s p fun view =>
    if k < s.length ∨ s.length = p + 4 then .reading (headReader s p view k) .accept
    else .ofResult ((headReader s p view (s.length - 2)).onHeaderBlock env .succeed)

section

variable {env : Env} {s : Bytes} {p : ℕ}

/-! ### The step lemmas -/

/-- A read that does not bring the whole end of the request line is added to the line. -/
theorem deliver_initial {k m : ℕ} (hp : find crlf s = some p) (hk : k ≤ p) (hkm : k ≤ m)
    (hm : m ≤ p + 1) :
    Connection.deliver env .succeed (.reading { requestLine := s.take k } .accept)
      (slice s k m) = .reading { requestLine := s.take m } .accept := by
  have hmissing : find crlf (slice s k m) = none := by
    rw [find_slice (by decide) hp hk, if_neg (by simp [crlf, text]; omega)]
  have happend : s.take k ++ slice s k m = s.take m :=
    slice_append_slice s (Nat.zero_le k) hkm
  have hall : find crlf (s.take k ++ slice s k m) = none := by
    rw [happend, find_take (by decide) hp, if_neg (by simp [crlf, text]; omega)]
  rw [Connection.deliver_onInitial rfl,
    HttpReadAsyncCallback.onInitial_missing succeed_oom hmissing hall, happend]
  rfl

/-- Nothing is parsed yet by a read that ends right behind the end of the request line, which
starts in it. -/
theorem deliver_lineEnd {k : ℕ} (hp : find crlf s = some p) (hk : k ≤ p)
    (hs : p + 2 ≤ s.length) :
    Connection.deliver env .succeed (.reading { requestLine := s.take k } .accept)
      (slice s k (p + 2)) = .reading { requestLine := s.take p } .accept := by
  have hfound : find crlf (slice s k (p + 2)) = some (p - k) := by
    rw [find_slice (by decide) hp hk, if_pos (by simp [crlf, text])]
  have hlast : (slice s k (p + 2)).length ≤ p - k + 2 := by
    rw [length_slice]
    omega
  have hline : s.take k ++ (slice s k (p + 2)).take (p - k) = s.take p := by
    rw [take_slice s (p - k) (by omega), Nat.add_sub_cancel' hk]
    exact slice_append_slice s (Nat.zero_le k) hk
  rw [Connection.deliver_onInitial rfl,
    HttpReadAsyncCallback.onInitial_found_last succeed_oom hfound hlast, hline]
  rfl

/-- A read that goes beyond the end of the request line, which starts in it, parses the line and
goes on behind it. -/
theorem deliver_line {k m : ℕ} (hp : find crlf s = some p) (hk : k ≤ p) (hm : p + 2 < m)
    (hms : m ≤ s.length) :
    Connection.deliver env .succeed (.reading { requestLine := s.take k } .accept)
      (slice s k m) =
    Connection.ofResult (({ requestLine := s.take p } : HttpReadAsyncCallback).onRequestLine env
      .succeed (slice s (p + 2) m)) := by
  have hfound : find crlf (slice s k m) = some (p - k) := by
    rw [find_slice (by decide) hp hk, if_pos (by simp [crlf, text]; omega)]
  have hlt : p - k + 2 < (slice s k m).length := by
    rw [length_slice]
    omega
  have hline : s.take k ++ (slice s k m).take (p - k) = s.take p := by
    rw [take_slice s (p - k) (by omega), Nat.add_sub_cancel' hk]
    exact slice_append_slice s (Nat.zero_le k) hk
  have hrest : (slice s k m).drop (p - k + 2) = slice s (p + 2) m := by
    rw [drop_slice]
    congr 1
    omega
  rw [Connection.deliver_onInitial rfl,
    HttpReadAsyncCallback.onInitial_found succeed_oom hfound hlt, hline, hrest]

/-- A read in the header lines that does not come to the end of the text is added to the
header block. -/
theorem onHeader_reading {k m : ℕ} {view : HttpRequestLineView} (hs : OnlyAtEnd blankLine s)
    (hk : p + 2 ≤ k) (hkm : k ≤ m) (hms : m ≤ s.length)
    (hshape : m < s.length ∧ p + 6 ≤ s.length ∨ s.length = p + 4) :
    (headReader s p view k).onHeader env .succeed (slice s k m) =
      .ok ((headReader s p view m).reads .succeed .read) := by
  have hnone : ∀ i, p + 2 ≤ i → find blankLine (slice s i m) = none := by
    intro i hi
    rcases hshape with ⟨hlt, hlong⟩ | hshort
    · refine find_eq_none_iff.mpr fun j hj => ?_
      rw [slice] at hj
      rw [occursAt_drop, occursAt_take (by decide)] at hj
      have hend := hs.2 _ hj.1
      have hle := hj.2
      omega
    · refine find_eq_none_of_length ?_
      have hfour : blankLine.length = 4 := rfl
      rw [length_slice, hfour]
      omega
  have happend : slice s (p + 2) k ++ slice s k m = slice s (p + 2) m :=
    slice_append_slice s hk hkm
  have hall : find blankLine ((headReader s p view k).requestHeader ++ slice s k m) = none := by
    change find blankLine (slice s (p + 2) k ++ slice s k m) = none
    rw [happend]
    exact hnone _ (Nat.le_refl _)
  rw [HttpReadAsyncCallback.onHeader_missing succeed_oom (hnone k hk) hall]
  simp only [headReader, happend]

/-- The last read completes the header block when it holds the whole blank line. -/
theorem onHeader_last {k : ℕ} {view : HttpRequestLineView} (hs : OnlyAtEnd blankLine s)
    (hk : p + 2 ≤ k) (hlast : k + 4 ≤ s.length) :
    (headReader s p view k).onHeader env .succeed (slice s k s.length) =
      (headReader s p view (s.length - 2)).onHeaderBlock env .succeed := by
  have hfour : blankLine.length = 4 := rfl
  have hblank : find blankLine s = some (s.length - 4) := find_of_onlyAtEnd hs
  have hfound : find blankLine (slice s k s.length) = some (s.length - 4 - k) := by
    rw [find_slice (by decide) hblank (by omega), if_pos (by rw [hfour]; omega)]
  have hblock : slice s (p + 2) k ++ (slice s k s.length).take (s.length - 4 - k + 2) =
      slice s (p + 2) (s.length - 2) := by
    rw [take_slice s _ (by omega)]
    have hend : k + (s.length - 4 - k + 2) = s.length - 2 := by omega
    rw [hend]
    exact slice_append_slice s hk (by omega)
  rw [HttpReadAsyncCallback.onHeader_found succeed_oom hfound]
  simp only [headReader, hblock]

/-- When the last read does not hold the whole blank line, the end of the header lines goes
through the accumulated text, and the second line end of the blank line with it. -/
theorem onHeader_last_across {k : ℕ} {view : HttpRequestLineView}
    (hs : OnlyAtEnd blankLine s) (hlong : p + 6 ≤ s.length) (hk : p + 2 ≤ k)
    (hks : k ≤ s.length) (hlast : s.length < k + 4) :
    (headReader s p view k).onHeader env .succeed (slice s k s.length) =
      (headReader s p view s.length).onHeaderBlock env .succeed := by
  have hfour : blankLine.length = 4 := rfl
  have hblank : find blankLine s = some (s.length - 4) := find_of_onlyAtEnd hs
  have hmissing : find blankLine (slice s k s.length) = none := by
    refine find_eq_none_of_length ?_
    rw [length_slice, hfour]
    omega
  have happend : slice s (p + 2) k ++ slice s k s.length = slice s (p + 2) s.length :=
    slice_append_slice s hk hks
  have hall : find blankLine ((headReader s p view k).requestHeader ++ slice s k s.length) =
      some (s.length - 4 - (p + 2)) := by
    change find blankLine (slice s (p + 2) k ++ slice s k s.length) = _
    rw [happend, find_slice (by decide) hblank (by omega), if_pos (by rw [hfour]; omega)]
  rw [HttpReadAsyncCallback.onHeader_across succeed_oom hmissing hall]
  simp only [headReader, happend]

/-- A complete request line is parsed, and the call goes on behind it. -/
theorem ofResult_onRequestLine (sv : Bytes) :
    Connection.ofResult (({ requestLine := s.take p } : HttpReadAsyncCallback).onRequestLine env
      .succeed sv) =
    behindLine s p fun view =>
      .ofResult ((headReader s p view (p + 2)).onHeader env .succeed sv) := by
  simp only [HttpReadAsyncCallback.onRequestLine, behindLine, headReader, slice_self]
  cases parseHttpRequestLine (s.take p) with
  | error why => rfl
  | ok found => cases found <;> rfl

/-- A read behind the request line goes to the header state. -/
theorem deliver_behindLine (conn : HttpRequestLineView → Connection) (sv : Bytes) :
    Connection.deliver env .succeed (behindLine s p conn) sv =
      behindLine s p fun view => Connection.deliver env .succeed (conn view) sv := by
  unfold behindLine
  cases parseHttpRequestLine (s.take p) with
  | error why => rfl
  | ok found => cases found <;> rfl

/-- Two ways to go on behind the request line agree if they do for the line that is parsed. -/
theorem behindLine_congr {conn conn' : HttpRequestLineView → Connection}
    (h : ∀ view, parseHttpRequestLine (s.take p) = .ok (some view) → conn view = conn' view) :
    behindLine s p conn = behindLine s p conn' := by
  unfold behindLine
  cases hline : parseHttpRequestLine (s.take p) with
  | error why => rfl
  | ok found =>
      cases found with
      | none => rfl
      | some view => exact h view hline

theorem progress_of_le {k : ℕ} (hk : k ≤ p + 1) :
    progress env s p k = .reading { requestLine := s.take k } .accept := if_pos hk

theorem progress_of_lt {k : ℕ} (hk : p + 1 < k) (hread : k < s.length ∨ s.length = p + 4) :
    progress env s p k = behindLine s p fun view =>
      .reading (headReader s p view k) .accept := by
  rw [progress, if_neg (Nat.not_le_of_lt hk)]
  simp only [if_pos hread]

theorem progress_end (hlong : p + 6 ≤ s.length) :
    progress env s p s.length = behindLine s p fun view =>
      .ofResult ((headReader s p view (s.length - 2)).onHeaderBlock env .succeed) := by
  have hend : ¬(s.length < s.length ∨ s.length = p + 4) := by omega
  rw [progress, if_neg (by omega)]
  simp only [if_neg hend]

/-- A read behind the end of the request line, from a cut that is not in it nor right behind it,
gives the header state what stands there. -/
theorem deliver_progress_header {k m : ℕ} (hp : find crlf s = some p)
    (hk : k ≤ p ∨ p + 2 < k ∧ k < s.length) (hm : p + 2 < m) (hms : m ≤ s.length) :
    Connection.deliver env .succeed (progress env s p k) (slice s k m) =
      behindLine s p fun view =>
        .ofResult ((headReader s p view (max k (p + 2))).onHeader env .succeed
          (slice s (max k (p + 2)) m)) := by
  rcases hk with hk | ⟨hk, hks⟩
  · rw [progress_of_le (by omega), deliver_line hp hk hm hms, ofResult_onRequestLine,
      Nat.max_eq_right (by omega)]
  · rw [progress_of_lt (by omega) (.inl hks), deliver_behindLine, Nat.max_eq_left (by omega)]
    rfl

/-- **The step lemma**: a read that does not bring the end of the text, from a cut that is not in
the end of the request line nor right behind it, takes the connection from what one cut determines
to what the next one does. -/
theorem deliver_progress {k m : ℕ} (hs : OnlyAtEnd blankLine s) (hp : find crlf s = some p)
    (hk : k ≠ p + 1 ∧ k ≠ p + 2) (hm : m ≠ p + 2) (hkm : k < m) (hms : m ≤ s.length)
    (hshape : m < s.length ∧ p + 6 ≤ s.length ∨ s.length = p + 4) :
    Connection.deliver env .succeed (progress env s p k) (slice s k m) =
      progress env s p m := by
  by_cases hmp : m ≤ p + 1
  · rw [progress_of_le (by omega), progress_of_le hmp,
      deliver_initial hp (by omega) (by omega) hmp]
  · rw [deliver_progress_header hp (by omega) (by omega) hms,
      progress_of_lt (by omega) (by omega)]
    congr 1
    funext view
    rw [onHeader_reading hs (by omega) (by omega) hms hshape]
    rfl

/-- The step lemma for a last read that holds the whole blank line: it leaves what the
text determines. -/
theorem deliver_progress_last {k : ℕ} (hs : OnlyAtEnd blankLine s)
    (hp : find crlf s = some p) (hk : k ≠ p + 1 ∧ k ≠ p + 2) (hlong : p + 6 ≤ s.length)
    (hlast : k + 4 ≤ s.length) :
    Connection.deliver env .succeed (progress env s p k) (slice s k s.length) =
      progress env s p s.length := by
  rw [deliver_progress_header hp (by omega) (by omega) (Nat.le_refl _), progress_end hlong]
  congr 1
  funext view
  rw [onHeader_last hs (by omega) (by omega)]

/-- A last read that does not hold the whole blank line parses the header block with the second
line end of the blank line behind it. -/
theorem deliver_progress_across {k : ℕ} (hs : OnlyAtEnd blankLine s)
    (hp : find crlf s = some p) (hlong : p + 6 ≤ s.length) (hks : k < s.length)
    (hlast : s.length < k + 4) :
    Connection.deliver env .succeed (progress env s p k) (slice s k s.length) =
      behindLine s p fun view =>
        .ofResult ((headReader s p view s.length).onHeaderBlock env .succeed) := by
  rw [deliver_progress_header hp (by omega) (by omega) (Nat.le_refl _)]
  congr 1
  funext view
  rw [onHeader_last_across hs hlong (by omega) (by omega) (by omega)]

/-- The second line end of the blank line ends the text. -/
theorem slice_append_crlf (hs : OnlyAtEnd blankLine s) (hlong : p + 6 ≤ s.length) :
    slice s (p + 2) s.length = slice s (p + 2) (s.length - 2) ++ crlf := by
  have hend : slice s (s.length - 2) s.length = crlf := by
    rw [slice_length_right]
    exact (List.suffix_iff_eq_drop.mp ((by decide : crlf <:+ blankLine).trans hs.1)).symm
  rw [← hend]
  exact (slice_append_slice s (by omega) (by omega)).symm

/-- Where the blank line does not matter, a last read that does not hold the whole of it leaves
what the bytes determine: the header block is refused both ways. -/
theorem progress_eq_across (hlong : p + 6 ≤ s.length) (h : ¬BlankLineMatters env s p) :
    (behindLine s p fun view =>
      .ofResult ((headReader s p view s.length).onHeaderBlock env .succeed)) =
      progress env s p s.length := by
  rw [progress_end hlong]
  refine behindLine_congr fun view hview => ?_
  obtain ⟨hfront, hwhole⟩ := not_or.mp fun hheader => h ⟨⟨view, hview⟩, hheader⟩
  rw [HttpReadAsyncCallback.onHeaderBlock_rejected succeed_oom
      (parseHttpRequestHeader_of_not_found hwhole),
    HttpReadAsyncCallback.onHeaderBlock_rejected succeed_oom
      (parseHttpRequestHeader_of_not_found hfront)]

/-! ### Whole deliveries -/

/-- A delivery is fed chunk by chunk, so its parts are fed one after the other. -/
theorem feed_append (conn : Connection) (part rest : List Bytes) :
    Connection.feed env conn (part ++ rest) =
      Connection.feed env (Connection.feed env conn part) rest := List.foldl_append

/-- The last chunk of a delivery brings the bytes between the last two cuts. -/
theorem eq_slice_of_prefix {part : List Bytes} {chunk : Bytes}
    (h : (part ++ [chunk]).flatten <+: s) :
    chunk = slice s part.flatten.length (part ++ [chunk]).flatten.length := by
  obtain ⟨t, rfl⟩ := h
  rw [slice, List.take_left, List.flatten_append, List.drop_left, List.flatten_singleton]

/-- A chunk that is not empty moves the cut. -/
theorem length_flatten_concat (part : List Bytes) {chunk : Bytes} (hchunk : chunk ≠ []) :
    part.flatten.length < (part ++ [chunk]).flatten.length := by
  rw [List.flatten_append, List.flatten_singleton, List.length_append]
  exact Nat.lt_add_of_pos_right (List.length_pos_iff.mpr hchunk)

/-- The end of a delivery is one of its cuts. -/
theorem length_flatten_mem_cuts (chunks : List Bytes) :
    chunks.flatten.length ∈ cuts chunks := mem_cuts.mpr ⟨chunks, List.prefix_refl _, rfl⟩

/-- The cuts of a part are cuts of the whole. -/
theorem cuts_subset_of_part {part chunks : List Bytes} (h : part <+: chunks) :
    cuts part ⊆ cuts chunks := fun _ hk => by
  obtain ⟨part', hpart', hlen⟩ := mem_cuts.mp hk
  exact mem_cuts.mpr ⟨part', hpart'.trans h, hlen⟩

/-- **The run lemma**: after reads that do not bring the end of the text a connection holds what
the last cut determines, when no cut before the last is in the end of the request line or right
behind it, and the last is not right behind it. -/
theorem feed_eq_progress {chunks : List Bytes} (hs : OnlyAtEnd blankLine s)
    (hp : find crlf s = some p) (hfront : chunks.flatten <+: s)
    (hne : ∀ chunk ∈ chunks, chunk ≠ [])
    (hcuts : ∀ k ∈ cuts chunks, k < chunks.flatten.length → k ≠ p + 1 ∧ k ≠ p + 2)
    (hend : chunks.flatten.length ≠ p + 2)
    (hshape : chunks.flatten.length < s.length ∧ p + 6 ≤ s.length ∨ s.length = p + 4) :
    Connection.feed env .fresh chunks = progress env s p chunks.flatten.length := by
  induction chunks using List.reverseRecOn with
  | nil =>
      rw [progress_of_le (by simp)]
      rfl
  | append_singleton part chunk ih =>
      have hpart : part <+: part ++ [chunk] := List.prefix_append _ _
      have hlt : part.flatten.length < (part ++ [chunk]).flatten.length :=
        length_flatten_concat part (hne chunk (by simp))
      have hcut := hcuts _ (cuts_subset_of_part hpart (length_flatten_mem_cuts part)) hlt
      have hms : (part ++ [chunk]).flatten.length ≤ s.length := hfront.length_le
      have hfeed : Connection.feed env .fresh part = progress env s p part.flatten.length :=
        ih (hpart.flatten.trans hfront) (fun c hc => hne c (hpart.subset hc))
          (fun k hk hklt => hcuts k (cuts_subset_of_part hpart hk) (hklt.trans hlt))
          hcut.2 (by omega)
      have hstep : Connection.deliver env .succeed (progress env s p part.flatten.length) _ = _ :=
        deliver_progress hs hp hcut hend hlt hms hshape
      rw [← eq_slice_of_prefix hfront] at hstep
      rw [feed_append, hfeed]
      exact hstep

/-- A delivery of a text with header lines, with no cut in the end of the request line or right
behind it, leaves what depends on one thing: whether the last read holds the whole blank line. -/
theorem feed_of_offLineEnd {part : List Bytes} {chunk : Bytes} (hs : OnlyAtEnd blankLine s)
    (hp : find crlf s = some p) (hlong : p + 6 ≤ s.length)
    (hchunks : Delivers (part ++ [chunk]) s)
    (hoff : ∀ k ∈ cuts (part ++ [chunk]), k ≠ p + 1 ∧ k ≠ p + 2) :
    Connection.feed env .fresh (part ++ [chunk]) =
      if part.flatten.length + 4 ≤ s.length then progress env s p s.length
      else behindLine s p fun view =>
        .ofResult ((headReader s p view s.length).onHeaderBlock env .succeed) := by
  obtain ⟨hflatten, hne⟩ := hchunks
  have hpart : part <+: part ++ [chunk] := List.prefix_append _ _
  have hlt := length_flatten_concat part (hne chunk (by simp))
  have hmem := cuts_subset_of_part hpart (length_flatten_mem_cuts part)
  have hfront : (part ++ [chunk]).flatten <+: s := hflatten ▸ List.prefix_refl _
  have hchunk := eq_slice_of_prefix hfront
  rw [hflatten] at hlt hchunk
  have hfeed : Connection.feed env .fresh part = progress env s p part.flatten.length :=
    feed_eq_progress hs hp (hpart.flatten.trans hfront)
      (fun c hc => hne c (hpart.subset hc))
      (fun k hk _ => hoff k (cuts_subset_of_part hpart hk)) (hoff _ hmem).2
      (.inl ⟨hlt, hlong⟩)
  have hstep : Connection.feed env .fresh (part ++ [chunk]) =
      Connection.deliver env .succeed (progress env s p part.flatten.length)
        (slice s part.flatten.length s.length) := by
    rw [← hchunk, ← hfeed]
    exact feed_append _ _ _
  rw [hstep]
  split
  · exact deliver_progress_last hs hp (hoff _ hmem) hlong ‹_›
  · exact deliver_progress_across hs hp hlong hlt (by omega)

/-- **A delivery with harmless cuts** leaves what the bytes determine. -/
theorem feed_of_harmless {chunks : List Bytes} (hs : OnlyAtEnd blankLine s)
    (hp : find crlf s = some p) (hchunks : Delivers chunks s)
    (hcuts : ∀ k ∈ cuts chunks, Harmless env s k) :
    Connection.feed env .fresh chunks = progress env s p s.length := by
  obtain ⟨p', hp', hshape⟩ := exists_lineEnd hs
  obtain rfl : p = p' := Option.some.inj (hp.symm.trans hp')
  have hoff : ∀ k ∈ cuts chunks, k ≠ p + 1 ∧ k ≠ p + 2 := fun k hk => (hcuts k hk p hp).1
  have hflatten := hchunks.flatten
  rcases hshape with hshort | hlong
  · have hfeed : Connection.feed env .fresh chunks = _ :=
      feed_eq_progress hs hp (hflatten ▸ List.prefix_refl _) hchunks.nonempty
        (fun k hk _ => hoff k hk) (by rw [hflatten]; omega) (.inr hshort)
    rwa [hflatten] at hfeed
  · rcases List.eq_nil_or_concat' chunks with rfl | ⟨part, chunk, rfl⟩
    · obtain rfl : s = [] := hflatten.symm
      simp at hlong
    · rw [feed_of_offLineEnd hs hp hlong hchunks hoff]
      split
      · rfl
      · refine progress_eq_across hlong fun hmatters => ?_
        have hpart : part <+: part ++ [chunk] := List.prefix_append _ _
        have hlt := length_flatten_concat part (hchunks.nonempty chunk (by simp))
        have hmem := cuts_subset_of_part hpart (length_flatten_mem_cuts part)
        have hend := (hcuts _ hmem p hp).2 hmatters
        rw [hflatten] at hlt
        omega

/-! ### Harmful cuts -/

/-- The outcome of a request whose line came out longer than `p`, or that was rejected. -/
def Outcome.Longer (p : ℕ) : Outcome → Prop
  | .parsed requestLine _ _ _ _ => p < requestLine.length
  | .rejected _ => True

/-- A request line that is too long stays so, whatever a call of the callback makes of it. -/
theorem longer_ofResult {line : Bytes} {x : Except Terminate Result} (hline : p < line.length)
    (h : Returns (fun result => line <+: result.reader.requestLine) x) :
    (Connection.ofResult x).outcome.Longer p := by
  cases x with
  | error why => exact trivial
  | ok result =>
      have hlt : p < result.reader.requestLine.length :=
        Nat.lt_of_lt_of_le hline (List.IsPrefix.length_le h)
      simp only [Connection.ofResult]
      split <;> exact hlt

/-- A request line that is too long stays so. -/
theorem longer_feed {conn : Connection} (chunks : List Bytes) (h : conn.outcome.Longer p) :
    (Connection.feed env conn chunks).outcome.Longer p := by
  induction chunks generalizing conn with
  | nil => exact h
  | cons chunk chunks ih =>
      refine ih ?_
      cases conn with
      | reading reader buffer =>
          cases buffer with
          | accept =>
              exact longer_ofResult h ((reader.returns_onStatusChanged .done chunk).imp
                fun _ hadvances => hadvances.reader.line)
          | body =>
              exact longer_ofResult h (((reader.receive chunk).returns_onStatusChanged .done
                chunk).imp fun _ hadvances => hadvances.reader.line)
      | responding reader dispatch data => exact h
      | idle reader dispatch e => exact h
      | terminated why => exact h

end

/-! ### Accepted heads -/

/-- How the parts of a head are parsed: its request line, which ends at `p`, and its
header lines. -/
structure Parses (env : Env) (s : Bytes) (p : ℕ) (lineView : HttpRequestLineView)
    (headerView : HttpRequestHeaderView) : Prop where
  lineEnd : find crlf s = some p
  line : parseHttpRequestLine (s.take p) = .ok (some lineView)
  headers : parseHttpRequestHeader env.duplicate (fun _ => false)
    (slice s (p + 2) (s.length - 2)) = .ok (some headerView)

/-- The head is parsed, and names neither an encoding nor a length. -/
def Accepted (env : Env) (s : Bytes) : Prop :=
  ∃ p lineView headerView, Parses env s p lineView headerView ∧
    headerView.find (text "Transfer-Encoding") = none ∧
    headerView.find (text "Content-Length") = none

/-- The outcome is not that of an accepted head with the request line in front of `p`. -/
def Outcome.Strays (p : ℕ) : Outcome → Prop
  | .parsed requestLine _ _ parseStatus _ => p < requestLine.length ∨ parseStatus = .initial
  | .rejected _ => True

section

variable {env : Env} {s : Bytes} {p : ℕ} {lineView : HttpRequestLineView}
  {headerView : HttpRequestHeaderView}

theorem Outcome.Longer.strays {o : Outcome} (h : o.Longer p) : o.Strays p := by
  cases o with
  | parsed requestLine lineView headerView parseStatus dispatch => exact .inl h
  | rejected why => exact trivial

/-- What was parsed of the request line is known behind it. -/
theorem Parses.behindLine_eq (h : Parses env s p lineView headerView)
    (conn : HttpRequestLineView → Connection) : behindLine s p conn = conn lineView := by
  simp only [behindLine, h.line]

/-- The outcome of a dispatched request shows its reader and its dispatch. -/
theorem outcome_of_dispatched {reader : HttpReadAsyncCallback} {result : Result}
    (h : reader.Dispatched result) :
    (Connection.ofResult (.ok result)).outcome = reader.outcome result.dispatch := by
  obtain ⟨⟨hreader, hnone | ⟨data, hdata⟩⟩, -⟩ := h
  · simp only [Connection.ofResult, hnone, Connection.outcome, hreader]
  · simp only [Connection.ofResult, hdata, Connection.outcome, hreader]

/-- The outcome of an accepted head does not stray. -/
theorem not_strays_progress (h : Parses env s p lineView headerView)
    (hencoding : headerView.find (text "Transfer-Encoding") = none)
    (hlength : headerView.find (text "Content-Length") = none)
    (hshape : s.length = p + 4 ∨ p + 6 ≤ s.length) :
    ¬(progress env s p s.length).outcome.Strays p := by
  have htake : ¬p < (s.take p).length := by
    rw [List.length_take]
    omega
  rcases hshape with hshort | hlong
  · rw [progress_of_lt (by omega) (.inr hshort), h.behindLine_eq]
    rintro (hlt | hinitial)
    · exact htake hlt
    · exact HttpParseStatus.noConfusion hinitial
  · rw [progress_end hlong, h.behindLine_eq,
      HttpReadAsyncCallback.onHeaderBlock_parsed succeed_oom h.headers hencoding,
      HttpReadAsyncCallback.onContentLength_none hlength rfl rfl]
    let reader : HttpReadAsyncCallback :=
      { headReader s p lineView (s.length - 2) with
        parseStatus := .body, requestHeaderView := headerView }
    obtain ⟨result, hresult, hdispatched⟩ : ∃ result,
        reader.onBody env .succeed = .ok result ∧ reader.Dispatched result :=
      HttpReadAsyncCallback.onBody_succeed succeed_oom env rfl
    have houtcome := outcome_of_dispatched hdispatched
    rw [← hresult] at houtcome
    intro hstrays
    have hcases : _ ∨ _ := houtcome ▸ hstrays
    rcases hcases with hlt | hinitial
    · exact htake hlt
    · exact HttpParseStatus.noConfusion hinitial

/-! ### Cuts that do harm -/

/-- A cut inside the end of the request line makes the outcome stray: the line that is parsed
holds the CR. -/
theorem strays_of_cut_inside {part rest : List Bytes} (hs : OnlyAtEnd blankLine s)
    (hp : find crlf s = some p) (hchunks : Delivers (part ++ rest) s)
    (hshape : s.length = p + 4 ∨ p + 6 ≤ s.length) (hcut : part.flatten.length = p + 1) :
    (Connection.feed env .fresh (part ++ rest)).outcome.Strays p := by
  obtain ⟨hflatten, hne⟩ := hchunks
  have hpart : part <+: part ++ rest := List.prefix_append _ _
  have hfeed : Connection.feed env .fresh part = progress env s p part.flatten.length :=
    feed_eq_progress hs hp (hflatten ▸ hpart.flatten) (fun c hc => hne c (hpart.subset hc))
      (fun k _ hk => by omega) (by omega) (by omega)
  have hlonger : (Connection.feed env .fresh part).outcome.Longer p := by
    rw [hfeed, hcut, progress_of_le (Nat.le_refl _)]
    change p < (s.take (p + 1)).length
    rw [List.length_take]
    omega
  rw [feed_append]
  exact (longer_feed rest hlonger).strays

/-- Behind the end of the request line comes another line end only in the blank line. -/
theorem length_eq_of_crlf {chunk t : Bytes} (hs : OnlyAtEnd blankLine s)
    (hp : find crlf s = some p) (hchunk : chunk ++ t = s.drop (p + 2))
    (hcrlf : crlf <+: chunk) : s.length = p + 4 := by
  obtain ⟨u, hu⟩ := occursAt_of_find hp
  obtain ⟨v, rfl⟩ := hcrlf
  have hrest : u = s.drop (p + 2) := by
    rw [← List.drop_drop, ← hu]
    rfl
  have hblank : OccursAt blankLine s p :=
    ⟨v ++ t, by rw [← hu, hrest, ← hchunk, List.append_assoc]; rfl⟩
  exact (hs.2 p hblank).symm

/-- A read that starts behind the end of the request line, of which nothing is parsed yet, is
taken for more of the request line. -/
theorem strays_behind_line {chunk : Bytes} {rest : List Bytes} (hs : OnlyAtEnd blankLine s)
    (hp : find crlf s = some p) (hflatten : (chunk :: rest).flatten = s.drop (p + 2))
    (hne : ∀ c ∈ chunk :: rest, c ≠ []) (hple : p ≤ s.length) :
    (Connection.feed env (.reading { requestLine := s.take p } .accept)
      (chunk :: rest)).outcome.Strays p := by
  have happends := HttpReadAsyncCallback.onInitial_appends { requestLine := s.take p } env chunk
  have hchunk : 0 < chunk.length := List.length_pos_iff.mpr (hne chunk (by simp))
  by_cases hzero : find crlf chunk = some 0
  · have hcrlf : crlf <+: chunk := occursAt_of_find hzero
    have hshort : s.length = p + 4 := length_eq_of_crlf hs hp hflatten hcrlf
    have htwo : crlf.length ≤ chunk.length := hcrlf.length_le
    have hlen := congrArg List.length hflatten
    rw [List.flatten_cons, List.length_append, List.length_drop, hshort] at hlen
    have hcrlfLength : crlf.length = 2 := rfl
    obtain rfl : rest = [] := by
      refine List.eq_nil_iff_forall_not_mem.mpr fun c hc => hne c (by simp [hc]) ?_
      exact List.flatten_eq_nil_iff.mp (List.length_eq_zero_iff.mp (by omega)) c hc
    change (Connection.ofResult (({ requestLine := s.take p } : HttpReadAsyncCallback).onInitial
      env .succeed chunk)).outcome.Strays p
    rw [HttpReadAsyncCallback.onInitial_found_last succeed_oom hzero (by omega)]
    exact .inr rfl
  · refine (longer_feed rest (longer_ofResult ?_ happends)).strays
    rw [List.length_append, List.length_take, List.length_take, Nat.min_eq_left hple]
    cases hfind : find crlf chunk with
    | none =>
        rw [Option.getD_none]
        omega
    | some j =>
        have hj : j ≠ 0 := fun h => hzero (h ▸ hfind)
        rw [Option.getD_some]
        omega

/-- A cut right behind the end of the request line, and none inside it, makes the
outcome stray. -/
theorem strays_of_cut_behind {part rest : List Bytes} (hs : OnlyAtEnd blankLine s)
    (hp : find crlf s = some p) (hchunks : Delivers (part ++ rest) s)
    (hshape : s.length = p + 4 ∨ p + 6 ≤ s.length) (hcut : part.flatten.length = p + 2)
    (hinside : p + 1 ∉ cuts (part ++ rest)) :
    (Connection.feed env .fresh (part ++ rest)).outcome.Strays p := by
  obtain ⟨hflatten, hne⟩ := hchunks
  have hpart : part <+: part ++ rest := List.prefix_append _ _
  rcases List.eq_nil_or_concat' part with rfl | ⟨init, chunk, rfl⟩
  · simp at hcut
  · have hinit : init <+: init ++ [chunk] := List.prefix_append _ _
    have hlt := length_flatten_concat init (hne chunk (by simp))
    have hk : init.flatten.length ≠ p + 1 := fun h => hinside
      (mem_cuts.mpr ⟨init, hinit.trans hpart, h⟩)
    have hfront : (init ++ [chunk]).flatten <+: s := hflatten ▸ hpart.flatten
    have hfeed : Connection.feed env .fresh init = progress env s p init.flatten.length :=
      feed_eq_progress hs hp (hinit.flatten.trans hfront)
        (fun c hc => hne c (by simp [hc])) (fun k _ hk => by omega) (by omega) (by omega)
    have hline : Connection.feed env .fresh (init ++ [chunk]) =
        .reading { requestLine := s.take p } .accept := by
      have hchunk := eq_slice_of_prefix hfront
      rw [hcut] at hchunk
      rw [feed_append, hfeed, progress_of_le (by omega), hchunk]
      exact deliver_lineEnd hp (by omega) (by omega)
    have hrest : rest.flatten = s.drop (p + 2) := by
      rw [← hflatten, List.flatten_append, ← hcut, List.drop_left]
    rw [feed_append, hline]
    cases rest with
    | nil =>
        have hlen := congrArg List.length hrest
        rw [List.flatten_nil, List.length_nil, List.length_drop] at hlen
        omega
    | cons chunk' rest =>
        exact strays_behind_line hs hp hrest (fun c hc => hne c (by simp at hc ⊢; tauto))
          (by omega)

/-- **A cut in the end of the request line**, or right behind it, changes the outcome of an
accepted head. -/
theorem strays_of_cut_lineEnd {chunks : List Bytes} (hs : OnlyAtEnd blankLine s)
    (hp : find crlf s = some p) (hchunks : Delivers chunks s)
    (hcut : p + 1 ∈ cuts chunks ∨ p + 2 ∈ cuts chunks) :
    (Connection.feed env .fresh chunks).outcome.Strays p := by
  obtain ⟨p', hp', hshape⟩ := exists_lineEnd hs
  obtain rfl : p = p' := Option.some.inj (hp.symm.trans hp')
  by_cases hinside : p + 1 ∈ cuts chunks
  · obtain ⟨part, ⟨rest, rfl⟩, hlen⟩ := mem_cuts.mp hinside
    exact strays_of_cut_inside hs hp hchunks hshape hlen
  · obtain ⟨part, ⟨rest, rfl⟩, hlen⟩ := mem_cuts.mp (hcut.resolve_left hinside)
    exact strays_of_cut_behind hs hp hchunks hshape hlen hinside

end

/-! ### Cuts in the blank line -/

section

variable {env : Env} {s : Bytes} {p : ℕ}

/-- A call that came back, or ended the process for another reason, was not rejected for
this one. -/
theorem outcome_ofResult_eq_rejected {x : Except Terminate Result} {why : Terminate} :
    (Connection.ofResult x).outcome = .rejected why ↔ x = .error why := by
  cases x with
  | error why' => simp [Connection.ofResult, Connection.outcome]
  | ok result =>
      refine iff_of_false (fun h => ?_) nofun
      rw [Connection.ofResult] at h
      split at h <;> cases h

/-- Behind the header lines the process ends for another reason than these, if it ends. -/
theorem onContentLength_ne_requestHeader (reader : HttpReadAsyncCallback) :
    reader.onContentLength env .succeed ≠ .error .requestHeader := by
  have hawait : ∀ reader' : HttpReadAsyncCallback,
      reader'.awaitBody env .succeed ≠ .error .requestHeader := by
    intro reader' h
    rw [HttpReadAsyncCallback.awaitBody] at h
    dsimp only at h
    cases hchunked : reader'.isChunked with
    | true =>
        rw [hchunked] at h
        cases h
    | false =>
        obtain ⟨result, hresult, -⟩ := @HttpReadAsyncCallback.onBody_succeed .succeed succeed_oom
          { reader' with parseStatus := .body } env hchunked
        rw [hresult, hchunked, if_neg Bool.false_ne_true] at h
        split at h <;> cases h
  intro h
  rw [HttpReadAsyncCallback.onContentLength] at h
  split at h
  · exact hawait reader h
  split at h
  · cases h
  split at h
  · cases h
  · exact hawait _ h

/-- **When the header block is refused**: the parser finds nothing in it. -/
theorem outcome_onHeaderBlock (reader : HttpReadAsyncCallback) :
    (Connection.ofResult (reader.onHeaderBlock env .succeed)).outcome =
        .rejected .requestHeader ↔
      ¬Found (parseHttpRequestHeader env.duplicate (fun _ => false) reader.requestHeader) := by
  rw [outcome_ofResult_eq_rejected]
  constructor
  · rintro h ⟨view, hview⟩
    simp only [HttpReadAsyncCallback.onHeaderBlock, succeed_oom, hview, bind, Except.bind] at h
    split at h
    · exact onContentLength_ne_requestHeader _ h
    split at h
    · cases h
    · exact onContentLength_ne_requestHeader _ h
  · intro h
    exact HttpReadAsyncCallback.onHeaderBlock_rejected succeed_oom
      (parseHttpRequestHeader_of_not_found h)

/-- **A cut in the blank line** changes the outcome where the blank line matters: of the two
header blocks that may be parsed one is refused and the other is not. -/
theorem outcome_across_ne (hs : OnlyAtEnd blankLine s) (hlong : p + 6 ≤ s.length)
    (h : BlankLineMatters env s p) :
    (behindLine s p fun view => .ofResult
      ((headReader s p view s.length).onHeaderBlock env .succeed)).outcome ≠
      (progress env s p s.length).outcome := by
  obtain ⟨⟨view, hview⟩, hheader⟩ := h
  rw [progress_end hlong]
  simp only [behindLine, hview]
  intro heq
  have hiff : ¬Found (parseHttpRequestHeader env.duplicate (fun _ => false)
        (slice s (p + 2) s.length)) ↔
      ¬Found (parseHttpRequestHeader env.duplicate (fun _ => false)
        (slice s (p + 2) (s.length - 2))) :=
    calc _ ↔ (Connection.ofResult
            ((headReader s p view s.length).onHeaderBlock env .succeed)).outcome =
          .rejected .requestHeader := (outcome_onHeaderBlock _).symm
      _ ↔ _ := by rw [heq, outcome_onHeaderBlock]; rfl
  have hfront : Found (parseHttpRequestHeader env.duplicate (fun _ => false)
      (slice s (p + 2) (s.length - 2))) :=
    hheader.elim id fun hwhole => not_not.mp fun hnot => hiff.mpr hnot hwhole
  refine hiff.mp ?_ hfront
  obtain ⟨headerView, hfound⟩ := hfront
  rw [slice_append_crlf hs hlong, parseHttpRequestHeader_append_crlf hfound]
  nofun

/-! ### The result -/

/-- **A delivery without a cut in the end of the request line**, or right behind it, has the
outcome that the text determines if and only if none of its cuts does harm. -/
theorem outcome_eq_iff_harmless {chunks : List Bytes} (hs : OnlyAtEnd blankLine s)
    (hp : find crlf s = some p) (hchunks : Delivers chunks s)
    (hoff : ∀ k ∈ cuts chunks, OffLineEnd s k) :
    (Connection.feed env .fresh chunks).outcome = (progress env s p s.length).outcome ↔
      ∀ k ∈ cuts chunks, Harmless env s k := by
  refine ⟨fun heq k hk q hq => ⟨hoff k hk q hq, fun hmatters => ?_⟩,
    fun hcuts => by rw [feed_of_harmless hs hp hchunks hcuts]⟩
  obtain rfl : p = q := Option.some.inj (hp.symm.trans hq)
  obtain ⟨p', hp', hshape⟩ := exists_lineEnd hs
  obtain rfl : p = p' := Option.some.inj (hp.symm.trans hp')
  refine hshape.imp id fun hlong => ?_
  rcases List.eq_nil_or_concat' chunks with rfl | ⟨part, chunk, rfl⟩
  · obtain rfl : s = [] := hchunks.flatten.symm
    simp at hlong
  · rw [feed_of_offLineEnd hs hp hlong hchunks fun k hk => hoff k hk p hp] at heq
    split at heq
    · obtain ⟨front, hfront, rfl⟩ := mem_cuts.mp hk
      rcases List.prefix_concat_iff.mp hfront with rfl | hfront
      · rw [hchunks.flatten]
        exact .inr (Nat.le_refl _)
      · have hle := hfront.flatten.length_le
        exact .inl (by omega)
    · exact absurd heq (outcome_across_ne hs hlong hmatters)

/-- **Fragmentation**: two deliveries whose cuts are all harmless have the same outcome. And a
delivery with any other cut has another outcome, if the head is accepted, or if none of its cuts
is in the end of the request line or right behind it. -/
theorem fragmentation {chunks₁ chunks₂ : List Bytes} (hs : OnlyAtEnd blankLine s)
    (hchunks₁ : Delivers chunks₁ s) (hchunks₂ : Delivers chunks₂ s)
    (hcuts : ∀ k ∈ cuts chunks₁, Harmless env s k) :
    ((∀ k ∈ cuts chunks₂, Harmless env s k) →
      (Connection.feed env .fresh chunks₂).outcome =
        (Connection.feed env .fresh chunks₁).outcome) ∧
    (Accepted env s ∨ (∀ k ∈ cuts chunks₂, OffLineEnd s k) →
      (Connection.feed env .fresh chunks₂).outcome =
        (Connection.feed env .fresh chunks₁).outcome →
      ∀ k ∈ cuts chunks₂, Harmless env s k) := by
  obtain ⟨p, hp, hshape⟩ := exists_lineEnd hs
  rw [feed_of_harmless hs hp hchunks₁ hcuts]
  refine ⟨fun hcuts₂ => by rw [feed_of_harmless hs hp hchunks₂ hcuts₂], fun hhead heq => ?_⟩
  suffices hoff : ∀ k ∈ cuts chunks₂, OffLineEnd s k from
    (outcome_eq_iff_harmless hs hp hchunks₂ hoff).mp heq
  rcases hhead with ⟨p', lineView, headerView, hparses, hencoding, hlength⟩ | hoff
  · obtain rfl : p = p' := Option.some.inj (hp.symm.trans hparses.lineEnd)
    have hstrays : ¬(p + 1 ∈ cuts chunks₂ ∨ p + 2 ∈ cuts chunks₂) := fun hcut =>
      not_strays_progress hparses hencoding hlength hshape
        (heq ▸ strays_of_cut_lineEnd hs hp hchunks₂ hcut)
    intro k hk q hq
    obtain rfl : p = q := Option.some.inj (hp.symm.trans hq)
    exact ⟨fun h => hstrays (.inl (h ▸ hk)), fun h => hstrays (.inr (h ▸ hk))⟩
  · exact hoff

end

/-- A request without a body. -/
def getRequest : Bytes := text "GET /a HTTP/1.1\r\nHost: xy\r\n\r\n"

theorem onlyAtEnd_getRequest : OnlyAtEnd blankLine getRequest :=
  onlyAtEnd_of_find (by decide) (by decide : find blankLine getRequest = some 25) (by decide)

/-- A request has the same outcome in one read as when it is cut in its request line. -/
theorem fragmentation_getRequest :
    (Connection.feed .bare .fresh [getRequest.take 5, getRequest.drop 5]).outcome =
      (Connection.feed .bare .fresh [getRequest]).outcome :=
  (fragmentation onlyAtEnd_getRequest ⟨by decide, by decide⟩ ⟨by decide, by decide⟩
    (by decide)).1 (by decide)

/-- **A cut right behind the request line** makes its first header line a part of it. -/
theorem cut_matters :
    ¬∀ (env : Env) (s : Bytes) (chunks₁ chunks₂ : List Bytes), OnlyAtEnd blankLine s →
      Delivers chunks₁ s → Delivers chunks₂ s →
      (∀ chunk ∈ chunks₁ ++ chunks₂, chunk.length ≤ 4096) →
      (∀ name ∈ [text "Content-Length", text "Transfer-Encoding"], find name s = none) →
      (Connection.feed env .fresh chunks₁).outcome =
        (Connection.feed env .fresh chunks₂).outcome := fun h => by
  have heq := h .bare getRequest [getRequest] [getRequest.take 17, getRequest.drop 17]
    onlyAtEnd_getRequest ⟨by decide, by decide⟩ ⟨by decide, by decide⟩ (by decide) (by decide)
  exact absurd heq (by decide)

end Netknot.Http
