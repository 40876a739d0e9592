import Netknot.Http.Exits
import Netknot.Http.HeaderLines

/-!
# The Views of the Request Parser

The read callback and its parsers cut views out of what they have read, at positions that they
add up from the results of searches. `substr` throws behind the end of its view, and nothing
catches the exception inside a `noexcept` function.

The loop of `parseHttpRequestHeader` has no bound: `HeaderRun` is the loop turn by turn, with the
lines that it hands to `insert`, and a run is finite. What the loop stores are texts that stand at
spans of its input, which follow one another.

## Main results

* `exists_headerRun`: the loop ends on every input.
* `HeaderRun.exists_spans`: the names and contents of its lines are slices that follow one another.
* `HeaderRun.mem_headers`: what the parser returns are these names and contents.
* `views_in_range`: all of this, for every call of the callback.
-/

namespace Netknot.Http

open Search

/-! ### The loop over the header lines -/

/-- **A run of the loop** of `parseHttpRequestHeader`: the lines that it cuts off and hands to
`insert`, and what it returns. -/
inductive HeaderRun (duplicate : Bytes → Bytes → Option Bytes) (oom : ℕ → Bool) :
    ℕ → HttpRequestHeaderView → Bytes → List HeaderLine → Option HttpRequestHeaderView → Prop
  | done (line : ℕ) (view : HttpRequestHeaderView) :
      HeaderRun duplicate oom line view [] [] (some view)
  | malformed {line : ℕ} {view : HttpRequestHeaderView} {sv : Bytes} (size : sv ≠ [])
      (malformed : headerLine sv = .ok none) : HeaderRun duplicate oom line view sv [] none
  | refused {line : ℕ} {view : HttpRequestHeaderView} {sv : Bytes} {l : HeaderLine}
      (size : sv ≠ []) (cut : headerLine sv = .ok (some l))
      (insert : view.insert duplicate (oom line) l.name l.content = none) :
      HeaderRun duplicate oom line view sv [l] none
  | turn {line : ℕ} {view view₁ : HttpRequestHeaderView} {sv : Bytes} {l : HeaderLine}
      {ls : List HeaderLine} {result : Option HttpRequestHeaderView}
      (size : sv ≠ []) (cut : headerLine sv = .ok (some l))
      (insert : view.insert duplicate (oom line) l.name l.content = some view₁)
      (next : HeaderRun duplicate oom (line + 1) view₁ l.rest ls result) :
      HeaderRun duplicate oom line view sv (l :: ls) result

section

variable {duplicate : Bytes → Bytes → Option Bytes} {oom : ℕ → Bool} {line : ℕ}
  {view view' : HttpRequestHeaderView} {sv : Bytes} {ls : List HeaderLine}
  {result : Option HttpRequestHeaderView}

/-- **The loop ends on every input**: each turn leaves a shorter text. -/
theorem exists_headerRun (duplicate : Bytes → Bytes → Option Bytes) (oom : ℕ → Bool) (line : ℕ)
    (view : HttpRequestHeaderView) (sv : Bytes) :
    ∃ ls result, HeaderRun duplicate oom line view sv ls result := by
  induction hlen : sv.length using Nat.strong_induction_on generalizing line view sv with
  | _ m ih =>
      by_cases hsv : sv = []
      · subst hsv
        exact ⟨[], some view, .done line view⟩
      cases hcut : headerLine sv with
      | error reason =>
          rw [headerLine_eq] at hcut
          cases hcut
      | ok found =>
          cases found with
          | none => exact ⟨[], none, .malformed hsv hcut⟩
          | some l =>
              cases hinsert : view.insert duplicate (oom line) l.name l.content with
              | none => exact ⟨[l], none, .refused hsv hcut hinsert⟩
              | some view₁ =>
                  have hlt : l.rest.length < sv.length := (headerLine_append [] hcut).1
                  obtain ⟨ls, result, hrun⟩ := ih _ (by omega) (line + 1) view₁ l.rest rfl
                  exact ⟨l :: ls, result, .turn hsv hcut hinsert hrun⟩

/-- **The parser is the loop**: with any bound that is not below the length it returns what the
run returns. -/
theorem HeaderRun.headerLoop_eq (h : HeaderRun duplicate oom line view sv ls result) {turns : ℕ}
    (hturns : sv.length ≤ turns) : headerLoop duplicate oom turns line view sv = .ok result := by
  rw [headerLoop_of_le hturns (Nat.le_refl _)]
  induction h generalizing turns with
  | done line view => rfl
  | malformed size malformed =>
      obtain ⟨m, hm⟩ := Nat.exists_eq_succ_of_ne_zero fun h0 => size (List.length_eq_zero_iff.mp h0)
      rw [hm, headerLoop, if_neg size, malformed]
      rfl
  | refused size cut insert =>
      obtain ⟨m, hm⟩ := Nat.exists_eq_succ_of_ne_zero fun h0 => size (List.length_eq_zero_iff.mp h0)
      rw [hm, headerLoop, if_neg size, cut]
      simp only [bind, Except.bind, insert]
      rfl
  | turn size cut insert next ih =>
      rw [headerLoop_turn size cut insert]
      exact ih (Nat.le_refl _)

/-! ### Where the views stand -/

/-- **A line stands at two spans**, one behind the other, in front of what it leaves. -/
theorem exists_line_spans {l : HeaderLine} (h : headerLine sv = .ok (some l)) (front : Bytes) :
    ∃ behind name content, front ++ sv = behind ++ l.rest ∧
      InOrder behind.length front.length [name, content] ∧
      name.of (front ++ sv) = l.name ∧ content.of (front ++ sv) = l.content := by
  obtain ⟨n, c, -, -, -, rfl⟩ := headerLine_eq_some_iff.mp h
  obtain ⟨lname, lcontent, rest⟩ := l
  -- the text in front of the content, and behind it
  let middle : Bytes := front ++ (lname ++ 58 :: (List.replicate n 32 ++ [c]))
  have hwhole : front ++ (lname ++ 58 :: (List.replicate n 32 ++ c :: (lcontent ++ (crlf ++ rest))))
      = middle ++ (lcontent ++ (crlf ++ rest)) := by simp [middle]
  refine ⟨middle ++ lcontent ++ crlf,
    ⟨front.length, front.length + lname.length, Nat.le_add_right _ _⟩,
    ⟨middle.length, middle.length + lcontent.length, Nat.le_add_right _ _⟩, ?_, ?_, ?_, ?_⟩
  · rw [hwhole]
    simp
  · refine .cons (Nat.le_refl _) (.cons ?_ (.nil ?_))
    · simp only [middle, List.length_append, List.length_cons]
      omega
    · simp only [List.length_append]
      omega
  · exact slice_append_append front lname _
  · rw [hwhole]
    exact slice_append_append middle lcontent _

/-- **The lines of a run stand at spans that follow one another.** -/
theorem HeaderRun.exists_spans (h : HeaderRun duplicate oom line view sv ls result)
    (front : Bytes) :
    ∃ spans, InOrder (front ++ sv).length front.length spans ∧
      spans.map (Span.of (front ++ sv)) = ls.flatMap fun l => [l.name, l.content] := by
  induction h generalizing front with
  | done line view => exact ⟨[], .nil (by simp), rfl⟩
  | malformed size malformed => exact ⟨[], .nil (by simp), rfl⟩
  | @refused line view sv l size cut insert =>
      obtain ⟨behind, name, content, hwhole, horder, hname, hcontent⟩ := exists_line_spans cut front
      have hle : behind.length ≤ (front ++ sv).length := by
        rw [hwhole, List.length_append]
        omega
      refine ⟨[name, content] ++ [], horder.append (.nil hle), ?_⟩
      simp [hname, hcontent]
  | @turn line view view₁ sv l ls result size cut insert next ih =>
      obtain ⟨behind, name, content, hwhole, horder, hname, hcontent⟩ := exists_line_spans cut front
      obtain ⟨spans, hspans, htexts⟩ := ih behind
      rw [← hwhole] at hspans htexts
      refine ⟨[name, content] ++ spans, horder.append hspans, ?_⟩
      rw [List.map_append, htexts, List.map_cons, List.map_singleton, hname, hcontent,
        List.flatMap_cons]

/-! ### What is stored -/

/-- `insert` keeps one of two values for a key. -/
def KeepsOne (duplicate : Bytes → Bytes → Option Bytes) : Prop :=
  ∀ old new kept, duplicate old new = some kept → kept = old ∨ kept = new

/-- What an insertion stores was there or is new. -/
theorem mem_of_insert (hkeeps : KeepsOne duplicate) {oom : Bool} {name content : Bytes}
    (h : view.insert duplicate oom name content = some view') {entry : Bytes × Bytes}
    (hentry : entry ∈ view'.headers) : entry ∈ view.headers ∨ entry = (name, content) := by
  rw [HttpRequestHeaderView.insert] at h
  cases hlookup : view.headers.lookup name with
  | none =>
      rw [hlookup] at h
      dsimp only at h
      split at h
      · cases h
      · obtain rfl := Option.some.inj h
        exact (List.mem_append.mp hentry).imp_right List.mem_singleton.mp
  | some old =>
      rw [hlookup] at h
      obtain ⟨kept, hkept, rfl⟩ := Option.map_eq_some_iff.mp h
      obtain ⟨before, hbefore, rfl⟩ := List.mem_map.mp hentry
      split
      · rcases hkeeps old content kept hkept with rfl | rfl
        · obtain ⟨l₁, l₂, hheaders, -⟩ := List.lookup_eq_some_iff.mp hlookup
          rw [hheaders]
          exact .inl (List.mem_append_right _ List.mem_cons_self)
        · exact .inr rfl
      · exact .inl hbefore

/-- **What the parser returns** are the names and contents of the lines of its run. -/
theorem HeaderRun.mem_headers (hkeeps : KeepsOne duplicate)
    (h : HeaderRun duplicate oom line view sv ls result) (hresult : result = some view')
    {entry : Bytes × Bytes} (hentry : entry ∈ view'.headers) :
    entry ∈ view.headers ∨ ∃ l ∈ ls, entry = (l.name, l.content) := by
  induction h with
  | done line view =>
      obtain rfl := Option.some.inj hresult
      exact .inl hentry
  | malformed size malformed => cases hresult
  | refused size cut insert => cases hresult
  | @turn line view view₁ sv l ls result size cut insert next ih =>
      rcases ih hresult with hmem | ⟨l', hl', heq⟩
      · rcases mem_of_insert hkeeps insert hmem with hmem | heq
        · exact .inl hmem
        · exact .inr ⟨l, List.mem_cons_self, heq⟩
      · exact .inr ⟨l', List.mem_cons_of_mem l hl', heq⟩

end

/-- **No view is out of range**, for every reader and every chunk, and the loop of
`parseHttpRequestHeader` ends on every input, with or without memory. The names and contents
it hands to `insert` stand at spans of the input that follow one another, and what it stores
are these. -/
theorem views_in_range (reader : HttpReadAsyncCallback) (env : Env) (ch : Choices)
    (status : AsyncTaskStatus) (sv : Bytes) :
    reader.onStatusChanged env ch status sv ≠ .error .outOfRange ∧
    ∀ (oom : ℕ → Bool) (requestHeader : Bytes), ∃ ls result,
      HeaderRun env.duplicate oom 0 {} requestHeader ls result ∧
      parseHttpRequestHeader env.duplicate oom requestHeader = .ok result ∧
      (∃ spans : List Span, spans.map (Span.of requestHeader) =
          (ls.flatMap fun l => [l.name, l.content]) ∧
        (spans.Pairwise fun a b => a.stop ≤ b.start) ∧
        ∀ span ∈ spans, span.stop ≤ requestHeader.length) ∧
      (KeepsOne env.duplicate → ∀ view, result = some view → ∀ entry ∈ view.headers,
        ∃ l ∈ ls, entry = (l.name, l.content)) := by
  refine ⟨HttpReadAsyncCallback.inRange_onStatusChanged reader status sv,
    fun oom requestHeader => ?_⟩
  obtain ⟨ls, result, hrun⟩ := exists_headerRun env.duplicate oom 0 {} requestHeader
  obtain ⟨spans, horder, htexts⟩ := hrun.exists_spans []
  refine ⟨ls, result, hrun, hrun.headerLoop_eq (Nat.le_refl _), ⟨spans, htexts, horder.pairwise,
    fun span hspan => (horder.mem.2 span hspan).2⟩, fun hkeeps view hresult entry hentry => ?_⟩
  rcases hrun.mem_headers hkeeps hresult hentry with hnone | hline
  · exact absurd hnone List.not_mem_nil
  · exact hline

/-- Of a block with two lines of the same name, a line stands at spans of the block that
is stored. -/
theorem views_in_range_twice :
    ∃ (ls : List HeaderLine) (spans : List Span),
      spans.map (Span.of (text "A: 1\r\nA: 23\r\n")) = (ls.flatMap fun l => [l.name, l.content]) ∧
      (spans.Pairwise fun a b => a.stop ≤ b.start) ∧
      ∃ l ∈ ls, (text "A", text "3") = (l.name, l.content) := by
  obtain ⟨ls, result, -, hparse, ⟨spans, htexts, hpairwise, -⟩, hstored⟩ :=
    (views_in_range {} Env.bare .succeed .done []).2 (fun _ => false) (text "A: 1\r\nA: 23\r\n")
  have hresult : result = some { headers := [(text "A", text "3")] } :=
    Except.ok.inj (hparse.symm.trans (by decide))
  refine ⟨ls, spans, htexts, hpairwise, hstored (fun _ _ _ hkept => ?_) _ hresult _ ?_⟩
  · exact .inr (Option.some.inj hkept).symm
  · exact List.mem_cons_self

end Netknot.Http
