import Mathlib.Data.List.Lookmap
import Netknot.Lib.Search

/-!
# Parsing a Request Head

The two parsers of `HttpReadAsyncCallback`: `parseHttpRequestLine` and
`parseHttpRequestHeader`. A `std::string_view` is modelled by the bytes it shows; its
`substr` throws when it starts behind the end of the view, which inside a `noexcept`
function ends the process.

`peff::HashMap` is modelled by the list of its entries. What `insert` does with a key that
is there already is not determined by the program, so it is a parameter: the value that is
kept, or a failure.

## Main results

* `parseHttpRequestLine_eq`, `headerLine_eq`: the parsers without the exception, which is
  never thrown.
* `headerLoop_of_le`, `headerLoop_turn`, `headerLoop_cases`: the bound on the turns of the header
  loop is never reached, so the loop is what its turns make of it.
* `headerLoop_append`: the loop on a longer text goes on where it ended on the shorter one.
* `headerLoop_ok`: the loop throws nothing.
-/

namespace Netknot.Http

open Search

/-- A text: what a `std::string_view` shows, or a `peff::String` holds. -/
abbrev Bytes := List UInt8

/-- The bytes of an ASCII literal. -/
def text (s : String) : Bytes := s.toList.map fun c => c.toNat.toUInt8

/-- `"\r\n"`. -/
def crlf : Bytes := text "\r\n"

/-- `"\r\n\r\n"`. -/
def blankLine : Bytes := text "\r\n\r\n"

/-- The text `":"` is one byte. -/
theorem text_colon : text ":" = [58] := by decide

/-- The text `"\r\n"` is two bytes. -/
theorem crlf_eq : crlf = [13, 10] := by decide

theorem crlf_ne_nil : crlf ≠ [] := by decide

/-- Why the callback ends the process. -/
inductive Terminate
  /-- `parseHttpRequestLine` returned nothing. -/
  | requestLine
  /-- `parseHttpRequestHeader` returned nothing. -/
  | requestHeader
  /-- A `Content-Length` that is not a number, or too large. -/
  | contentLength
  /-- A chunked body. -/
  | chunked
  /-- A `write` function of the response called at the wrong stage. -/
  | stage
  /-- An `ExceptionPointer` was destroyed with its exception, with assertions enabled. -/
  | unhandledException
  /-- `std::out_of_range` in a `noexcept` function. -/
  | outOfRange
  /-- `sprintf` writes behind the end of its array. -/
  | bufferOverflow
  deriving DecidableEq, Repr

/-- A process does not end for a reason that neither a call nor what follows it can give. -/
theorem bind_ne_error {α β : Type} {x : Except Terminate α} {f : α → Except Terminate β}
    {reason : Terminate} (hx : x ≠ .error reason) (hf : ∀ a, x = .ok a → f a ≠ .error reason) :
    (x >>= f) ≠ .error reason := by
  cases x with
  | error e =>
      intro h
      exact hx (congrArg Except.error (Except.error.inj h))
  | ok a => exact hf a rfl

/-- `sv.substr(pos, count)`. -/
def substr (sv : Bytes) (pos count : ℕ) : Except Terminate Bytes :=
  if pos ≤ sv.length then .ok ((sv.drop pos).take count) else .error .outOfRange

/-- `sv.substr(pos)`. -/
def substrFrom (sv : Bytes) (pos : ℕ) : Except Terminate Bytes :=
  if pos ≤ sv.length then .ok (sv.drop pos) else .error .outOfRange

@[simp] theorem substr_of_le {sv : Bytes} {pos count : ℕ} (h : pos ≤ sv.length) :
    substr sv pos count = .ok ((sv.drop pos).take count) := if_pos h

@[simp] theorem substrFrom_of_le {sv : Bytes} {pos : ℕ} (h : pos ≤ sv.length) :
    substrFrom sv pos = .ok (sv.drop pos) := if_pos h

/-- A parser has found what it looks for. -/
def Found {α : Type} (x : Except Terminate (Option α)) : Prop := ∃ a, x = .ok (some a)

instance {α : Type} (x : Except Terminate (Option α)) : Decidable (Found x) :=
  match x with
  | .ok (some a) => isTrue ⟨a, rfl⟩
  | .ok none => isFalse nofun
  | .error _ => isFalse nofun

/-! ### The request line -/

/-- `HttpRequestLineView`. -/
structure HttpRequestLineView where
  method : Bytes := []
  path : Bytes := []
  version : Bytes := []
  deriving DecidableEq, Repr

/-- `HttpReadAsyncCallback::parseHttpRequestLine`. -/
def parseHttpRequestLine (requestLine : Bytes) :
    Except Terminate (Option HttpRequestLineView) := do
  let sv := requestLine
  match find (text " ") sv with
  | none => return none
  | some separator =>
      let method ← substr sv 0 separator
      let sv ← substrFrom sv (separator + 1)
      match find (text " ") sv with
      | none => return none
      | some separator =>
          let path ← substr sv 0 separator
          let sv ← substrFrom sv (separator + 1)
          return some { method := method, path := path, version := sv }

/-- A character that was found is inside the view. -/
theorem succ_le_of_find {c : UInt8} {sv : Bytes} {k : ℕ} (h : find [c] sv = some k) :
    k + 1 ≤ sv.length := (occursAt_of_find h).le (List.cons_ne_nil c [])

/-- `parseHttpRequestLine` throws nothing: the three fields are what the first two
spaces separate. -/
theorem parseHttpRequestLine_eq (requestLine : Bytes) :
    parseHttpRequestLine requestLine = .ok ((find (text " ") requestLine).bind fun i =>
      (find (text " ") (requestLine.drop (i + 1))).map fun j =>
        { method := requestLine.take i
          path := (requestLine.drop (i + 1)).take j
          version := (requestLine.drop (i + 1)).drop (j + 1) }) := by
  rw [parseHttpRequestLine]
  cases hi : find (text " ") requestLine with
  | none => simp [pure, Except.pure]
  | some i =>
      have hile : i + 1 ≤ requestLine.length := succ_le_of_find hi
      cases hj : find (text " ") (requestLine.drop (i + 1)) with
      | none => simp [hj, hile, bind, Except.bind, pure, Except.pure]
      | some j =>
          have hjle : j + 1 ≤ (requestLine.drop (i + 1)).length := succ_le_of_find hj
          rw [List.length_drop] at hjle
          simp [hj, hile, hjle, bind, Except.bind, pure, Except.pure]

/-! ### The header lines -/

/-- `HttpRequestHeaderView`. -/
structure HttpRequestHeaderView where
  /-- The entries of the `peff::HashMap`. -/
  headers : List (Bytes × Bytes) := []
  deriving DecidableEq, Repr

/-- `headers.insert(name, content)`: `oom` when there is no memory for the entry. -/
def HttpRequestHeaderView.insert (duplicate : Bytes → Bytes → Option Bytes) (oom : Bool)
    (view : HttpRequestHeaderView) (name content : Bytes) : Option HttpRequestHeaderView :=
  match view.headers.lookup name with
  | none => if oom then none else some { headers := view.headers ++ [(name, content)] }
  | some old => (duplicate old content).map fun kept =>
      { headers := view.headers.map fun entry =>
          if entry.1 = name then (name, kept) else entry }

/-- `headers.find(name)`. -/
def HttpRequestHeaderView.find (view : HttpRequestHeaderView) (name : Bytes) : Option Bytes :=
  view.headers.lookup name

/-- One header line: its name, its content and the text behind it. -/
structure HeaderLine where
  name : Bytes
  content : Bytes
  rest : Bytes
  deriving DecidableEq, Repr

/-- The body of the loop of `parseHttpRequestHeader` up to the `insert`. -/
def headerLine (sv : Bytes) : Except Terminate (Option HeaderLine) := do
  match find (text ":") sv with
  | none => return none
  | some separator =>
      let name ← substr sv 0 separator
      let sv ← substrFrom sv (separator + 1)
      match findNot 32 sv with
      | none => return none
      | some separator =>
          let sv ← substrFrom sv (separator + 1)
          match find crlf sv with
          | none => return none
          | some endOfLine =>
              let content ← substr sv 0 endOfLine
              let sv ← substrFrom sv (endOfLine + 2)
              return some { name := name, content := content, rest := sv }

/-- `headerLine` throws nothing. -/
theorem headerLine_eq (sv : Bytes) :
    headerLine sv = .ok ((find (text ":") sv).bind fun i =>
      (findNot 32 (sv.drop (i + 1))).bind fun j =>
        (find crlf (sv.drop (i + 1 + (j + 1)))).map fun k =>
          { name := sv.take i
            content := (sv.drop (i + 1 + (j + 1))).take k
            rest := sv.drop (i + 1 + (j + 1) + (k + 2)) }) := by
  rw [headerLine]
  cases hi : find (text ":") sv with
  | none => simp [pure, Except.pure]
  | some i =>
      have hile : i + 1 ≤ sv.length := succ_le_of_find hi
      cases hj : findNot 32 (sv.drop (i + 1)) with
      | none => simp [hj, hile, bind, Except.bind, pure, Except.pure]
      | some j =>
          have hjle : j + 1 ≤ (sv.drop (i + 1)).length := findNot_lt hj
          rw [List.length_drop] at hjle
          cases hk : find crlf (sv.drop (i + 1 + (j + 1))) with
          | none => simp [hj, hk, hile, hjle, bind, Except.bind, pure, Except.pure]
          | some k =>
              have hkle : k + 2 ≤ (sv.drop (i + 1 + (j + 1))).length :=
                (occursAt_of_find hk).le (by decide)
              rw [List.length_drop] at hkle
              simp [hj, hk, hile, hjle, hkle, bind, Except.bind, pure, Except.pure]

/-- The loop of `parseHttpRequestHeader`. Its first argument bounds the turns; `line`
counts them. -/
def headerLoop (duplicate : Bytes → Bytes → Option Bytes) (oom : ℕ → Bool) :
    ℕ → ℕ → HttpRequestHeaderView → Bytes → Except Terminate (Option HttpRequestHeaderView)
  | 0, _, view, _ => return some view
  | turns + 1, line, view, sv => do
      if sv = [] then return some view
      match ← headerLine sv with
      | none => return none
      | some l =>
          match view.insert duplicate (oom line) l.name l.content with
          | none => return none
          | some view => headerLoop duplicate oom turns (line + 1) view l.rest

/-- `HttpReadAsyncCallback::parseHttpRequestHeader`: every turn of the loop shortens the
view, so there are no more turns than bytes. -/
def parseHttpRequestHeader (duplicate : Bytes → Bytes → Option Bytes) (oom : ℕ → Bool)
    (requestHeader : Bytes) : Except Terminate (Option HttpRequestHeaderView) :=
  headerLoop duplicate oom requestHeader.length 0 {} requestHeader

/-- What a header line leaves is shorter, and stays the same at the front when the
text is continued. -/
theorem headerLine_append {sv : Bytes} {l : HeaderLine} (t : Bytes)
    (h : headerLine sv = .ok (some l)) :
    l.rest.length < sv.length ∧
      headerLine (sv ++ t) = .ok (some { l with rest := l.rest ++ t }) := by
  rw [headerLine_eq, Except.ok.injEq, Option.bind_eq_some_iff] at h
  obtain ⟨i, hi, h⟩ := h
  obtain ⟨j, hj, h⟩ := Option.bind_eq_some_iff.mp h
  obtain ⟨k, hk, rfl⟩ := Option.map_eq_some_iff.mp h
  have hile : i + 1 ≤ sv.length := succ_le_of_find hi
  have hjle : j + 1 ≤ (sv.drop (i + 1)).length := findNot_lt hj
  have hkle : k + 2 ≤ (sv.drop (i + 1 + (j + 1))).length :=
    (occursAt_of_find hk).le (by decide)
  rw [List.length_drop] at hjle hkle
  have hdrop : ∀ m ≤ sv.length, (sv ++ t).drop m = sv.drop m ++ t := fun m hm =>
    List.drop_append_of_le_length hm
  refine ⟨?_, ?_⟩
  · rw [List.length_drop]
    omega
  · rw [headerLine_eq, find_append_of_eq_some t hi, Option.bind_some, hdrop _ hile,
      findNot_append_of_eq_some t hj, Option.bind_some, hdrop _ (by omega),
      find_append_of_eq_some t hk, Option.map_some, hdrop _ (by omega),
      List.take_append_of_le_length (by omega),
      List.take_append_of_le_length (by rw [List.length_drop]; omega)]

section

variable {duplicate : Bytes → Bytes → Option Bytes} {oom : ℕ → Bool}

/-- The bound on the turns does not matter as long as it is not below the length. -/
theorem headerLoop_of_le {m n line : ℕ} {view : HttpRequestHeaderView} {sv : Bytes}
    (hm : sv.length ≤ m) (hn : sv.length ≤ n) :
    headerLoop duplicate oom m line view sv = headerLoop duplicate oom n line view sv := by
  induction m generalizing n line view sv with
  | zero =>
      obtain rfl : sv = [] := List.length_eq_zero_iff.mp (Nat.le_zero.mp hm)
      cases n with
      | zero => rfl
      | succ n => rfl
  | succ m ih =>
      cases n with
      | zero =>
          obtain rfl : sv = [] := List.length_eq_zero_iff.mp (Nat.le_zero.mp hn)
          rfl
      | succ n =>
          simp only [headerLoop]
          split
          · rfl
          · cases hline : headerLine sv with
            | error e => rfl
            | ok found =>
                cases found with
                | none => rfl
                | some l =>
                    have hlt := (headerLine_append [] hline).1
                    simp only [bind, Except.bind]
                    cases view.insert duplicate (oom line) l.name l.content with
                    | none => rfl
                    | some view' => exact ih (by omega) (by omega)

/-- A turn of the loop inserts its line and goes on with the rest. -/
theorem headerLoop_turn {line : ℕ} {view view' : HttpRequestHeaderView} {sv : Bytes}
    {l : HeaderLine} (hsv : sv ≠ []) (hline : headerLine sv = .ok (some l))
    (hinsert : view.insert duplicate (oom line) l.name l.content = some view') :
    headerLoop duplicate oom sv.length line view sv =
      headerLoop duplicate oom l.rest.length (line + 1) view' l.rest := by
  obtain ⟨m, hm⟩ : ∃ m, sv.length = m + 1 :=
    Nat.exists_eq_succ_of_ne_zero fun h => hsv (List.length_eq_zero_iff.mp h)
  have hlt := (headerLine_append [] hline).1
  rw [hm, headerLoop, if_neg hsv, hline]
  simp only [bind, Except.bind, hinsert]
  exact headerLoop_of_le (by omega) (Nat.le_refl _)

/-- A line that cannot be inserted ends the loop. -/
theorem headerLoop_refused {line : ℕ} {view : HttpRequestHeaderView} {sv : Bytes}
    {l : HeaderLine} (hsv : sv ≠ []) (hline : headerLine sv = .ok (some l))
    (hinsert : view.insert duplicate (oom line) l.name l.content = none) :
    headerLoop duplicate oom sv.length line view sv = .ok none := by
  obtain ⟨m, hm⟩ : ∃ m, sv.length = m + 1 :=
    Nat.exists_eq_succ_of_ne_zero fun h => hsv (List.length_eq_zero_iff.mp h)
  rw [hm, headerLoop, if_neg hsv, hline]
  simp only [bind, Except.bind, hinsert]
  rfl

/-- **A loop that succeeds** had an empty text, or made a turn and went on with the rest. -/
theorem headerLoop_cases {line : ℕ} {view view' : HttpRequestHeaderView} {sv : Bytes}
    (h : headerLoop duplicate oom sv.length line view sv = .ok (some view')) :
    sv = [] ∧ view = view' ∨
      ∃ l view₁, sv ≠ [] ∧ headerLine sv = .ok (some l) ∧
        view.insert duplicate (oom line) l.name l.content = some view₁ ∧
        headerLoop duplicate oom l.rest.length (line + 1) view₁ l.rest = .ok (some view') := by
  by_cases hsv : sv = []
  · subst hsv
    exact .inl ⟨rfl, Option.some.inj (Except.ok.inj h)⟩
  · obtain ⟨k, hk⟩ : ∃ k, sv.length = k + 1 :=
      Nat.exists_eq_succ_of_ne_zero fun h => hsv (List.length_eq_zero_iff.mp h)
    have hturn := h
    rw [hk, headerLoop, if_neg hsv] at hturn
    cases hline : headerLine sv with
    | error e =>
        rw [hline] at hturn
        cases hturn
    | ok found =>
        cases found with
        | none =>
            rw [hline] at hturn
            cases hturn
        | some l =>
            cases hinsert : view.insert duplicate (oom line) l.name l.content with
            | none => simp [hline, bind, Except.bind, pure, Except.pure, hinsert] at hturn
            | some view₁ =>
                rw [headerLoop_turn hsv hline hinsert] at h
                exact .inr ⟨l, view₁, hsv, rfl, hinsert, h⟩

/-- **The loop on a longer text** goes on where it ended on the shorter one. -/
theorem headerLoop_append {sv : Bytes} (t : Bytes) {line : ℕ}
    {view view' : HttpRequestHeaderView}
    (h : headerLoop duplicate oom sv.length line view sv = .ok (some view')) :
    ∃ line', headerLoop duplicate oom (sv ++ t).length line view (sv ++ t) =
      headerLoop duplicate oom t.length line' view' t := by
  induction hlen : sv.length using Nat.strong_induction_on generalizing sv line view with
  | _ m ih =>
      rcases headerLoop_cases h with ⟨rfl, rfl⟩ | ⟨l, view₁, hsv, hline, hinsert, h⟩
      · exact ⟨line, rfl⟩
      · obtain ⟨hlt, happend⟩ := headerLine_append t hline
        obtain ⟨line', hrest⟩ := ih l.rest.length (by omega) h rfl
        refine ⟨line', ?_⟩
        rw [headerLoop_turn (by simp [hsv]) happend hinsert]
        exact hrest

/-- The loop throws nothing. -/
theorem headerLoop_ok (turns line : ℕ) (view : HttpRequestHeaderView) (sv : Bytes) :
    ∃ result, headerLoop duplicate oom turns line view sv = .ok result := by
  induction turns generalizing line view sv with
  | zero => exact ⟨_, rfl⟩
  | succ turns ih =>
      rw [headerLoop]
      by_cases hsv : sv = []
      · rw [if_pos hsv]
        exact ⟨_, rfl⟩
      · rw [if_neg hsv, headerLine_eq]
        simp only [bind, Except.bind]
        split
        · exact ⟨_, rfl⟩
        · split
          · exact ⟨_, rfl⟩
          · exact ih _ _ _

/-- `parseHttpRequestHeader` throws nothing, so it refuses a block in which it finds nothing. -/
theorem parseHttpRequestHeader_of_not_found {requestHeader : Bytes}
    (h : ¬Found (parseHttpRequestHeader duplicate oom requestHeader)) :
    parseHttpRequestHeader duplicate oom requestHeader = .ok none := by
  obtain ⟨found, hfound⟩ := @headerLoop_ok duplicate oom requestHeader.length 0 {} requestHeader
  cases found with
  | none => exact hfound
  | some view => exact absurd ⟨view, hfound⟩ h

/-- A text that was parsed is not parsed any more when a blank line follows. -/
theorem parseHttpRequestHeader_append_crlf {requestHeader : Bytes}
    {view : HttpRequestHeaderView}
    (h : parseHttpRequestHeader duplicate oom requestHeader = .ok (some view)) :
    parseHttpRequestHeader duplicate oom (requestHeader ++ crlf) = .ok none := by
  obtain ⟨line', hline⟩ := headerLoop_append crlf h
  rw [parseHttpRequestHeader, hline]
  have hcrlf : headerLine crlf = .ok none := by decide
  change headerLoop duplicate oom (1 + 1) line' view crlf = .ok none
  rw [headerLoop, if_neg (by decide), hcrlf]
  rfl

end

end Netknot.Http
