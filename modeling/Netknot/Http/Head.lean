import Netknot.Http.HeaderLines
import Netknot.Http.Operations

/-!
# A Head in One Read

A request head that comes in one read of a fresh connection: a request line, header lines and
a blank line. The callback cuts it with two searches that know nothing of each other. The
line end of the request line is behind it when it looks for the blank line, so without header
lines it does not find one, and waits for a blank line that came already. With header lines
it does, and what becomes of the head is decided by the header parser.

## Main results

* `find_blankLine`: where the blank line of a head is found.
* `dispatchedOnce_iff`: a request is dispatched in a call if the `Result` says so.
* `head_dispatched_iff`: which heads are dispatched in the call they came in.
-/

namespace Netknot.Http

open Search

/-! ### Heads -/

/-- The fields of a request line as they may stand in one. -/
structure HttpRequestLineView.WellFormed (view : HttpRequestLineView) : Prop where
  method_space : 32 ∉ view.method
  method_cr : 13 ∉ view.method
  path_space : 32 ∉ view.path
  path_cr : 13 ∉ view.path
  version_cr : 13 ∉ view.version

/-- A request line, without its end. -/
def HttpRequestLineView.line (view : HttpRequestLineView) : Bytes :=
  view.method ++ 32 :: (view.path ++ 32 :: view.version)

/-- A **header line** of a request. The value may start with more spaces, and may even be
nothing else. -/
structure HeadLine where
  name : Bytes
  spaces : ℕ
  value : Bytes
  deriving DecidableEq, Repr

namespace HeadLine

/-- The line, without its end. -/
def line (l : HeadLine) : Bytes := l.name ++ 58 :: (List.replicate l.spaces 32 ++ l.value)

/-- The name of the line, and its value without the spaces in front. -/
def field (l : HeadLine) : Bytes × Bytes := (l.name, l.value.dropWhile (· = 32))

/-- The line as it may stand in a head that announces no body. -/
structure WellFormed (l : HeadLine) : Prop where
  name_colon : 58 ∉ l.name
  name_cr : 13 ∉ l.name
  value_cr : 13 ∉ l.value
  length : l.name ≠ text "Content-Length"
  encoding : l.name ≠ text "Transfer-Encoding"

end HeadLine

/-- The header lines with their ends. -/
def headerBlock : List HeadLine → Bytes
  | [] => []
  | l :: lines => l.line ++ (crlf ++ headerBlock lines)

/-- **A request head.** -/
def headText (view : HttpRequestLineView) (lines : List HeadLine) : Bytes :=
  view.line ++ (crlf ++ (headerBlock lines ++ crlf))

/-! ### The request line -/

/-- The request line is parsed. -/
theorem parseHttpRequestLine_line {view : HttpRequestLineView} (h : view.WellFormed) :
    parseHttpRequestLine view.line = .ok (some view) := by
  have hspace : text " " = [32] := by decide
  have hmethod : find [32] view.line = some view.method.length :=
    find_singleton_eq_some_iff.mpr ⟨_, _, rfl, h.method_space, rfl⟩
  have hbehind : view.line.drop (view.method.length + 1) = view.path ++ 32 :: view.version :=
    drop_length_succ _ _ _
  have hpath : find [32] (view.path ++ 32 :: view.version) = some view.path.length :=
    find_singleton_eq_some_iff.mpr ⟨_, _, rfl, h.path_space, rfl⟩
  rw [parseHttpRequestLine_eq, hspace, hmethod, Option.bind_some, hbehind, hpath, Option.map_some,
    drop_length_succ, HttpRequestLineView.line, List.take_left, List.take_left]

/-- The request line is the first line of the head. -/
theorem ends_line {view : HttpRequestLineView} (h : view.WellFormed) : Ends crlf view.line := by
  rw [crlf_eq]
  refine ends_of_notMem ?_
  simp only [HttpRequestLineView.line, List.mem_append, List.mem_cons, not_or]
  exact ⟨h.method_cr, by decide, h.path_cr, by decide, h.version_cr⟩

/-! ### The header block -/

/-- A line holds no carriage return. -/
theorem HeadLine.WellFormed.cr_notMem {l : HeadLine} (h : l.WellFormed) : 13 ∉ l.line := by
  have hspaces : 13 ∉ List.replicate l.spaces (32 : UInt8) := fun hmem =>
    absurd (List.eq_of_mem_replicate hmem) (by decide)
  simp only [HeadLine.line, List.mem_append, List.mem_cons, not_or]
  exact ⟨h.name_cr, by decide, hspaces, h.value_cr⟩

/-- The header lines with the line ends between them. -/
def joined (l : HeadLine) : List HeadLine → Bytes
  | [] => l.line
  | next :: lines => l.line ++ (crlf ++ joined next lines)

/-- The last line of a header block has an end as well. -/
theorem headerBlock_cons (l : HeadLine) (lines : List HeadLine) :
    headerBlock (l :: lines) = joined l lines ++ crlf := by
  induction lines generalizing l with
  | nil => simp [headerBlock, joined]
  | cons next lines ih => rw [headerBlock, joined, ih next, List.append_assoc, List.append_assoc]

/-- Behind a line end, a line starts with another byte than a carriage return. -/
theorem head?_joined {l : HeadLine} (h : l.WellFormed) (lines : List HeadLine) :
    ∃ c t, joined l lines = c :: t ∧ c ≠ 13 := by
  obtain ⟨c, t, hline⟩ : ∃ c t, l.line = c :: t :=
    List.exists_cons_of_ne_nil line_ne_nil
  have hc : c ≠ 13 := by
    rintro rfl
    exact h.cr_notMem (hline ▸ List.mem_cons_self)
  cases lines with
  | nil => exact ⟨c, t, hline, hc⟩
  | cons next lines => exact ⟨c, _, by rw [joined, hline, List.cons_append], hc⟩

/-- **No blank line** is inside a header block. -/
theorem ends_joined {l : HeadLine} {lines : List HeadLine}
    (h : ∀ l' ∈ l :: lines, l'.WellFormed) : Ends blankLine (joined l lines) := by
  have hblank : blankLine = [13, 10, 13, 10] := by decide
  have hl := h l List.mem_cons_self
  induction lines generalizing l with
  | nil =>
      rw [hblank]
      exact ends_of_notMem hl.cr_notMem
  | cons next lines ih =>
      have hnext : next.WellFormed := h next (List.mem_cons_of_mem _ List.mem_cons_self)
      have htail := ih (fun l' hl' => h l' (List.mem_cons_of_mem _ hl')) hnext
      obtain ⟨c, t, hjoined, hc⟩ := head?_joined hnext lines
      rw [joined, crlf_eq]
      rw [hblank] at htail ⊢
      refine Ends.append (ends_iff.mpr fun j hj hocc => ?_) hl.cr_notMem
      cases j with
      | zero =>
          obtain ⟨r, hr⟩ := hocc
          rw [hjoined] at hr
          simp only [List.cons_append, List.nil_append, List.drop_zero, List.cons.injEq] at hr
          exact hc hr.2.2.1.symm
      | succ j =>
          have hlf : Ends [13, 10, 13, 10] (10 :: joined next lines) := htail.cons (by decide)
          exact ends_iff.mp hlf j (Nat.lt_of_succ_lt_succ hj) hocc

/-- **Where the blank line is found**: at the end of the last header line. -/
theorem find_blankLine {l : HeadLine} {lines : List HeadLine}
    (h : ∀ l' ∈ l :: lines, l'.WellFormed) :
    ∃ off, find blankLine (headerBlock (l :: lines) ++ crlf) = some off ∧
      (headerBlock (l :: lines) ++ crlf).take (off + 2) = headerBlock (l :: lines) := by
  have hblank : crlf ++ crlf = blankLine ++ [] := by decide
  refine ⟨(joined l lines).length, ?_, ?_⟩
  · rw [headerBlock_cons, List.append_assoc, hblank]
    exact (ends_joined h).find_append []
  · have hlength : (headerBlock (l :: lines)).length = (joined l lines).length + 2 := by
      rw [headerBlock_cons, List.length_append]
      rfl
    rw [← hlength, List.take_left]

/-- A line is its name, a colon, some spaces and its field without leading spaces. -/
theorem HeadLine.line_eq (l : HeadLine) :
    ∃ n, l.line = l.name ++ 58 :: (List.replicate n 32 ++ l.field.2) := by
  have hspaces : ∀ b ∈ l.value.takeWhile (· = 32), b = 32 := by
    intro b hb
    have hall := List.all_eq_true.mp (List.all_takeWhile (p := (· = 32)) (l := l.value)) b hb
    simpa using hall
  obtain hfront := List.eq_replicate_iff.mpr ⟨rfl, hspaces⟩
  refine ⟨l.spaces + (l.value.takeWhile (· = 32)).length, ?_⟩
  have hvalue : l.value = l.value.takeWhile (· = 32) ++ l.value.dropWhile (· = 32) :=
    List.takeWhile_append_dropWhile.symm
  rw [HeadLine.line, ← List.replicate_append_replicate, ← hfront, List.append_assoc,
    HeadLine.field, ← hvalue]

/-- A value does not start with a space. -/
theorem HeadLine.head?_field (l : HeadLine) : l.field.2.head? ≠ some 32 := by
  have hnot := List.head?_dropWhile_not (· = 32) l.value
  intro hhead
  rw [HeadLine.field] at hhead
  rw [hhead] at hnot
  exact Bool.false_ne_true (hnot.symm.trans (by decide))

/-- **A header block is a text of lines.** -/
theorem lines_headerBlock {lines : List HeadLine} (h : ∀ l ∈ lines, l.WellFormed) :
    Lines (lines.map HeadLine.field) (headerBlock lines) := by
  induction lines with
  | nil => exact .nil
  | cons l lines ih =>
      have hl := h l List.mem_cons_self
      have hends : Ends crlf l.line := by
        rw [crlf_eq]
        exact ends_of_notMem hl.cr_notMem
      obtain ⟨n, hline⟩ := l.line_eq
      have htext : headerBlock (l :: lines) = l.name ++ 58 :: (List.replicate n 32 ++
          (l.field.2 ++ (crlf ++ headerBlock lines))) := by
        rw [headerBlock, hline]
        simp
      rw [htext]
      exact .cons n hl.name_colon l.head?_field (hline ▸ hends)
        (ih fun l' hl' => h l' (List.mem_cons_of_mem _ hl'))

/-! ### The call -/

/-- **The request was dispatched once** in a call that returned: with this request line, and
without a read that was posted. -/
def DispatchedOnce (view : HttpRequestLineView) (x : Ending) : Prop :=
  ∃ e t, x = .ok (e, t) ∧ t.log.countP Action.isDispatch = 1 ∧ (∀ a ∈ t.log, a.isRead = false) ∧
    t.reader.requestLineView = view

section

variable {env : Env} {ch : Choices}

/-- What a call did holds a dispatch, and no read, if its `Result` holds a dispatch. -/
theorem countP_of_did {view : HttpRequestLineView} {result : Result} {actions : List Action}
    (h : Did env ch view result actions) :
    (actions.countP Action.isDispatch = 1 ∧ ∀ a ∈ actions, a.isRead = false) ↔
      result.dispatch.isSome = true := by
  cases h with
  | nothing hposted hdispatch | read hposted hdispatch | body n hposted hdispatch =>
      rw [hdispatch]
      exact iff_of_false (fun h => absurd h.1 (by simp [Action.isDispatch])) Bool.false_ne_true
  | dispatched d hposted hdispatch | responded d state hposted hdispatch hanswered =>
      rw [hdispatch]
      exact iff_of_true ⟨rfl, by simp [Action.isRead, Op.isWrite]⟩ rfl

/-- **A request is dispatched in a call** if and only if its `Result` holds a dispatch and
no read. -/
theorem dispatchedOnce_iff {reader : HttpReadAsyncCallback} {status : AsyncTaskStatus} {sv : Bytes}
    {view : HttpRequestLineView} :
    DispatchedOnce view (Trace.onStatusChanged ⟨reader, []⟩ env ch status sv) ↔
      ∃ result, reader.onStatusChanged env ch status sv = .ok result ∧
        result.dispatch.isSome = true ∧ result.reader.requestLineView = view := by
  have hrefines := @HttpReadAsyncCallback.refines_onStatusChanged env ch [] reader status sv
  generalize reader.onStatusChanged env ch status sv = y at hrefines
  generalize Trace.onStatusChanged ⟨reader, []⟩ env ch status sv = x at hrefines
  cases hrefines with
  | terminated why =>
      refine iff_of_false ?_ ?_
      · rintro ⟨e, t, hx, -⟩
        cases hx
      · rintro ⟨result, hy, -⟩
        cases hy
  | @returned e t result actions he hreader hlog hdid =>
      rw [List.nil_append] at hlog
      constructor
      · rintro ⟨_, _, hx, hcount, hreads, hview⟩
        obtain ⟨-, rfl⟩ := Prod.mk.inj (Except.ok.inj hx)
        rw [hlog] at hcount hreads
        exact ⟨result, rfl, (countP_of_did hdid).mp ⟨hcount, hreads⟩, hreader ▸ hview⟩
      · rintro ⟨_, hy, hdispatch, hview⟩
        obtain rfl := Except.ok.inj hy
        obtain ⟨hcount, hreads⟩ := (countP_of_did hdid).mpr hdispatch
        exact ⟨e, t, rfl, hlog ▸ hcount, hlog ▸ hreads, hreader ▸ hview⟩

/-! ### Which heads are dispatched -/

/-- The reader behind the request line. -/
def behindRequestLine (view : HttpRequestLineView) : HttpReadAsyncCallback :=
  { parseStatus := .header, requestLine := view.line, requestLineView := view }

variable {view : HttpRequestLineView} {lines : List HeadLine}

/-- The request line is parsed, and the rest of the head goes to the header state. -/
theorem onStatusChanged_headText (hoom : ∀ point, ch.oom point = false)
    (hview : view.WellFormed) (lines : List HeadLine) :
    HttpReadAsyncCallback.onStatusChanged {} env ch .done (headText view lines) =
      (behindRequestLine view).onHeader env ch (headerBlock lines ++ crlf) := by
  have hfind : find crlf (headText view lines) = some view.line.length :=
    (ends_line hview).find_append _
  have hbehind : (headText view lines).drop (view.line.length + 2) = headerBlock lines ++ crlf := by
    rw [headText, ← List.drop_drop, List.drop_left]
    rfl
  have hlt : view.line.length + 2 < (headText view lines).length := by
    have hcrlf : crlf.length = 2 := by decide
    simp only [headText, List.length_append]
    omega
  have hline : (headText view lines).take view.line.length = view.line := List.take_left
  have hinitial : HttpReadAsyncCallback.onStatusChanged {} env ch .done (headText view lines) =
      HttpReadAsyncCallback.onInitial {} env ch (headText view lines) := rfl
  rw [hinitial, HttpReadAsyncCallback.onInitial_found hoom hfind hlt, hbehind, hline,
    HttpReadAsyncCallback.onRequestLine, List.nil_append, parseHttpRequestLine_line hview]
  rfl

/-- **Without header lines** the callback waits for more. -/
theorem onHeader_crlf (hoom : ∀ point, ch.oom point = false) (view : HttpRequestLineView) :
    (behindRequestLine view).onHeader env ch crlf =
      .ok ({ behindRequestLine view with requestHeader := crlf }.reads ch .read) := by
  have hnone : find blankLine crlf = none := by decide
  exact HttpReadAsyncCallback.onHeader_missing hoom hnone hnone

/-- **With header lines** the header block is complete. -/
theorem onHeader_headerBlock (hoom : ∀ point, ch.oom point = false) (view : HttpRequestLineView)
    (hlines : ∀ l ∈ lines, l.WellFormed) (hne : lines ≠ []) :
    (behindRequestLine view).onHeader env ch (headerBlock lines ++ crlf) =
      { behindRequestLine view with requestHeader := headerBlock lines }.onHeaderBlock env ch := by
  cases lines with
  | nil => exact absurd rfl hne
  | cons l lines =>
      obtain ⟨off, hfind, htake⟩ := find_blankLine hlines
      rw [HttpReadAsyncCallback.onHeader_found hoom hfind, htake]
      rfl

/-- A header block that cannot be cut into pieces ends the process. -/
theorem onHeaderBlock_no_pieces (hduplicate : ∀ old new, (env.duplicate old new).isSome = true)
    (hoom : ∀ point, ch.oom point = false) {reader : HttpReadAsyncCallback}
    (h : ¬ ∃ pieces, Pieces pieces reader.requestHeader) :
    reader.onHeaderBlock env ch = .error .requestHeader := by
  have hnone : ∀ found, parseHttpRequestHeader env.duplicate noOom reader.requestHeader =
      .ok (some found) → False := by
    intro found hparse
    exact h ((parse_isSome_iff hduplicate fun _ => rfl).mp ⟨found, hparse⟩)
  obtain ⟨result, hparse⟩ := @headerLoop_ok env.duplicate noOom reader.requestHeader.length 0 {}
    reader.requestHeader
  cases result with
  | none => exact HttpReadAsyncCallback.onHeaderBlock_rejected hoom hparse
  | some found => exact absurd hparse (hnone found)

/-- **A header block that can be cut**, and whose lines announce no body, is dispatched. -/
theorem onHeaderBlock_pieces (hduplicate : ∀ old new, (env.duplicate old new).isSome = true)
    (hoom : ∀ point, ch.oom point = false) (view : HttpRequestLineView)
    (hlines : ∀ l ∈ lines, l.WellFormed) {pieces : List (Bytes × Bytes)}
    (hpieces : Pieces pieces (headerBlock lines)) :
    ∃ result, { behindRequestLine view with requestHeader := headerBlock lines }.onHeaderBlock env
        ch = .ok result ∧
      result.dispatch.isSome = true ∧ result.reader.requestLineView = view := by
  obtain ⟨found, hparse, hother, -⟩ :=
    @headerLoop_of_pieces env.duplicate noOom hduplicate (fun _ => rfl) _ _ hpieces 0 {}
  have hparse' : parseHttpRequestHeader env.duplicate (fun _ => false) (headerBlock lines) =
      .ok (some found) := hparse
  have hnames := names_sublist (lines_headerBlock hlines) hpieces
  have habsent : ∀ name, (∀ l ∈ lines, l.name ≠ name) → found.find name = none := by
    intro name hname
    refine hother name fun hmem => ?_
    obtain ⟨field, hfield, rfl⟩ := List.mem_map.mp (hnames.subset hmem)
    obtain ⟨l, hl, rfl⟩ := List.mem_map.mp hfield
    exact hname l hl rfl
  have hencoding := habsent (text "Transfer-Encoding") fun l hl => (hlines l hl).encoding
  have hlength := habsent (text "Content-Length") fun l hl => (hlines l hl).length
  let reader : HttpReadAsyncCallback :=
    { behindRequestLine view with
      parseStatus := .body, requestHeader := headerBlock lines, requestHeaderView := found }
  obtain ⟨result, hresult, hdispatched⟩ :=
    @HttpReadAsyncCallback.onBody_succeed ch hoom reader env rfl
  refine ⟨result, ?_, hdispatched.dispatch, by rw [hdispatched.reader]; rfl⟩
  rw [HttpReadAsyncCallback.onHeaderBlock_parsed hoom hparse' hencoding,
    HttpReadAsyncCallback.onContentLength_none hlength rfl rfl]
  exact hresult

/-- **A head without header lines** is not dispatched. -/
theorem not_dispatchedOnce_nil (hoom : ∀ point, ch.oom point = false) (hview : view.WellFormed) :
    ¬ DispatchedOnce view (Trace.onStatusChanged ⟨{}, []⟩ env ch .done (headText view [])) := by
  rw [dispatchedOnce_iff, onStatusChanged_headText hoom hview, headerBlock, List.nil_append,
    onHeader_crlf hoom]
  rintro ⟨result, hresult, hdispatch, -⟩
  obtain rfl := Except.ok.inj hresult
  exact Bool.false_ne_true hdispatch

/-- **Which heads are dispatched** in the call they came in: those with a header line whose
header lines come out even, when each line of spaces takes the next one with it. -/
theorem head_dispatched_iff (hduplicate : ∀ old new, (env.duplicate old new).isSome = true)
    (hoom : ∀ point, ch.oom point = false) (hview : view.WellFormed)
    (hlines : ∀ l ∈ lines, l.WellFormed) :
    DispatchedOnce view (Trace.onStatusChanged ⟨{}, []⟩ env ch .done (headText view lines)) ↔
      lines ≠ [] ∧ comesOut (lines.map HeadLine.field) = true := by
  by_cases hne : lines = []
  · subst hne
    exact iff_of_false (not_dispatchedOnce_nil hoom hview) fun h => h.1 rfl
  rw [dispatchedOnce_iff, onStatusChanged_headText hoom hview,
    onHeader_headerBlock hoom view hlines hne, and_iff_right hne,
    ← exists_pieces_iff (lines_headerBlock hlines)]
  constructor
  · rintro ⟨result, hresult, -⟩
    by_contra hpieces
    rw [onHeaderBlock_no_pieces hduplicate hoom hpieces] at hresult
    cases hresult
  · rintro ⟨pieces, hpieces⟩
    exact onHeaderBlock_pieces hduplicate hoom view hlines hpieces

end

/-- The request line `GET / HTTP/1.1`. -/
def getLine : HttpRequestLineView := ⟨text "GET", text "/", text "HTTP/1.1"⟩

theorem getLine_wellFormed : getLine.WellFormed :=
  ⟨by decide, by decide, by decide, by decide, by decide⟩

/-- A head with the line `Host: a` is dispatched once. -/
theorem head_dispatched_host :
    DispatchedOnce getLine (Trace.onStatusChanged ⟨{}, []⟩ .bare .succeed .done
      (headText getLine [⟨text "Host", 1, text "a"⟩])) := by
  refine (head_dispatched_iff (fun _ _ => rfl) succeed_oom getLine_wellFormed ?_).mpr (by decide)
  intro l hl
  obtain rfl := List.mem_singleton.mp hl
  exact ⟨by decide, by decide, by decide, by decide, by decide⟩

/-- A head without header lines is not dispatched. -/
theorem head_not_dispatched :
    ¬ DispatchedOnce getLine (Trace.onStatusChanged ⟨{}, []⟩ .bare .succeed .done
      (headText getLine [])) := not_dispatchedOnce_nil succeed_oom getLine_wellFormed

/-- The bytes of this head. -/
example : headText getLine [] = text "GET / HTTP/1.1\r\n\r\n" := by decide

end Netknot.Http
