import Netknot.Http.Parser
import Netknot.Lib.Assoc
import Netknot.Lib.Lines

/-!
# What the Header Parser Accepts

A header block is a list of lines, each a name, a colon, spaces and a value up to the line
end: `Lines`. `parseHttpRequestHeader` cuts its input differently, into `Pieces`. A piece has
a name up to the next colon, over line ends if need be; it takes the first byte behind the
spaces for a separator and drops it, whatever it is; and its content goes up to the next line
end behind that byte. Where the value of a line is empty, the byte is the carriage return, and
the content is the rest of the line end and the whole next line.

## Main results

* `headerLine_eq_some_iff`: one turn of the loop cuts off one piece.
* `parse_isSome_iff`: what the parser accepts.
* `piece_of_line`: the first piece of a text of lines has another content than its line.
* `exists_pieces_iff`: which texts of lines can be cut into pieces.
* `parsesAsLines_iff`: when the parser does what the lines say.
-/

namespace Netknot.Http

open Search

/-! ### The two grammars -/

/-- **A text of header lines**, with its fields: each line has a colon, and ends at its own
line end; the value is what stands behind the colon and the spaces. -/
inductive Lines : List (Bytes × Bytes) → Bytes → Prop
  | nil : Lines [] []
  | cons {name value rest : Bytes} {fields : List (Bytes × Bytes)} (n : ℕ)
      (colon : 58 ∉ name) (start : value.head? ≠ some 32)
      (ends : Ends crlf (name ++ 58 :: (List.replicate n 32 ++ value)))
      (tail : Lines fields rest) :
      Lines ((name, value) :: fields)
        (name ++ 58 :: (List.replicate n 32 ++ (value ++ (crlf ++ rest))))

/-- **A text of pieces**, as the parser cuts it: one byte `c` behind the spaces is dropped. -/
inductive Pieces : List (Bytes × Bytes) → Bytes → Prop
  | nil : Pieces [] []
  | cons {name content rest : Bytes} {pieces : List (Bytes × Bytes)} (n : ℕ) (c : UInt8)
      (colon : 58 ∉ name) (start : c ≠ 32) (ends : Ends crlf content)
      (tail : Pieces pieces rest) :
      Pieces ((name, content) :: pieces)
        (name ++ 58 :: (List.replicate n 32 ++ c :: (content ++ (crlf ++ rest))))

/-- A text with a line is not empty. -/
theorem line_ne_nil {name t : Bytes} : name ++ 58 :: t ≠ [] :=
  List.append_ne_nil_of_right_ne_nil name (List.cons_ne_nil 58 t)

/-! ### One turn of the loop -/

/-- What stands behind a list and one element is left when both are dropped. -/
theorem drop_length_succ (l t : Bytes) (c : UInt8) : (l ++ c :: t).drop (l.length + 1) = t := by
  rw [← List.drop_drop, List.drop_left]
  rfl

/-- A piece is cut off. -/
theorem headerLine_piece {name content rest : Bytes} {n : ℕ} {c : UInt8}
    (colon : 58 ∉ name) (start : c ≠ 32) (ends : Ends crlf content) :
    headerLine (name ++ 58 :: (List.replicate n 32 ++ c :: (content ++ (crlf ++ rest)))) =
      .ok (some ⟨name, content, rest⟩) := by
  have hcolon : find (text ":")
      (name ++ 58 :: (List.replicate n 32 ++ c :: (content ++ (crlf ++ rest)))) =
        some name.length := by
    rw [text_colon]
    exact find_singleton_eq_some_iff.mpr ⟨name, _, rfl, colon, rfl⟩
  have hspaces : findNot 32 (List.replicate n 32 ++ c :: (content ++ (crlf ++ rest))) = some n :=
    findNot_eq_some_iff.mpr ⟨c, _, rfl, start⟩
  have hdrop : (List.replicate n 32 ++ c :: (content ++ (crlf ++ rest))).drop (n + 1) =
      content ++ (crlf ++ rest) := by
    have hlength := drop_length_succ (List.replicate n 32) (content ++ (crlf ++ rest)) c
    rwa [List.length_replicate] at hlength
  have hend := ends.find_append rest
  have hrest : (content ++ (crlf ++ rest)).drop (content.length + 2) = rest := by
    rw [← List.drop_drop, List.drop_left]
    rfl
  have hcontent : (name ++ 58 :: (List.replicate n 32 ++ c :: (content ++ (crlf ++ rest)))).drop
      (name.length + 1 + (n + 1)) = content ++ (crlf ++ rest) := by
    rw [← List.drop_drop, drop_length_succ, hdrop]
  rw [headerLine_eq, hcolon, Option.bind_some, drop_length_succ, hspaces, Option.bind_some,
    hcontent, hend, Option.map_some, ← List.drop_drop, hcontent, hrest, List.take_left,
    List.take_left]

/-- **One turn of the loop** cuts off one piece. -/
theorem headerLine_eq_some_iff {sv : Bytes} {l : HeaderLine} :
    headerLine sv = .ok (some l) ↔ ∃ n c, 58 ∉ l.name ∧ c ≠ 32 ∧ Ends crlf l.content ∧
      sv = l.name ++ 58 :: (List.replicate n 32 ++ c :: (l.content ++ (crlf ++ l.rest))) := by
  constructor
  · intro h
    obtain ⟨i, hi, hrest⟩ : ∃ i, find (text ":") sv = some i ∧
        (findNot 32 (sv.drop (i + 1))).bind (fun j =>
          (find crlf (sv.drop (i + 1 + (j + 1)))).map fun k => HeaderLine.mk (sv.take i)
            ((sv.drop (i + 1 + (j + 1))).take k) (sv.drop (i + 1 + (j + 1) + (k + 2)))) =
          some l := by
      rw [headerLine_eq, Except.ok.injEq] at h
      exact Option.bind_eq_some_iff.mp h
    obtain ⟨j, hj, hrest⟩ := Option.bind_eq_some_iff.mp hrest
    obtain ⟨k, hk, -⟩ := Option.map_eq_some_iff.mp hrest
    rw [text_colon] at hi
    obtain ⟨name, t, rfl, colon, rfl⟩ := find_singleton_eq_some_iff.mp hi
    rw [drop_length_succ] at hj
    obtain ⟨c, u, rfl, start⟩ := findNot_eq_some_iff.mp hj
    have hdrop := drop_length_succ (List.replicate j 32) u c
    rw [List.length_replicate] at hdrop
    rw [← List.drop_drop, drop_length_succ, hdrop] at hk
    obtain ⟨content, rest, rfl, ends, -⟩ := exists_ends_of_find crlf_ne_nil hk
    rw [headerLine_piece colon start ends] at h
    obtain rfl := Option.some.inj (Except.ok.inj h)
    exact ⟨j, c, colon, start, ends, rfl⟩
  · rintro ⟨n, c, colon, start, ends, rfl⟩
    exact headerLine_piece colon start ends

/-! ### The loop -/

section

variable {duplicate : Bytes → Bytes → Option Bytes} {oom : ℕ → Bool}
  {view view' : HttpRequestHeaderView} {name content : Bytes}

/-- An insertion that has memory succeeds, when it does at a key that is there. -/
theorem exists_insert (hduplicate : ∀ old new, (duplicate old new).isSome = true)
    (view : HttpRequestHeaderView) (name content : Bytes) :
    ∃ view', view.insert duplicate false name content = some view' := by
  rw [HttpRequestHeaderView.insert]
  cases hlookup : view.headers.lookup name with
  | none => exact ⟨_, rfl⟩
  | some old =>
      obtain ⟨kept, hkept⟩ := Option.isSome_iff_exists.mp (hduplicate old content)
      exact ⟨_, congrArg (Option.map _) hkept⟩

/-- **Other names** are not affected by an insertion. -/
theorem find_insert_of_ne {oom : Bool} {other : Bytes}
    (h : view.insert duplicate oom name content = some view') (hne : other ≠ name) :
    view'.find other = view.find other := by
  rw [HttpRequestHeaderView.insert] at h
  cases hlookup : view.headers.lookup name with
  | none =>
      rw [hlookup] at h
      dsimp only at h
      by_cases hoom : oom = true
      · rw [if_pos hoom] at h
        cases h
      · rw [if_neg hoom] at h
        obtain rfl := Option.some.inj h
        exact (Assoc.lookup_append_singleton hlookup).trans (if_neg hne)
  | some old =>
      rw [hlookup] at h
      obtain ⟨kept, -, rfl⟩ := Option.map_eq_some_iff.mp h
      have hmodify : (view.headers.map fun entry =>
          if entry.1 = name then (name, kept) else entry) =
            Assoc.modify name (fun _ => kept) view.headers := by
        refine List.map_congr_left fun entry _ => ?_
        by_cases hentry : entry.1 = name
        · rw [if_pos hentry, if_pos hentry, hentry]
        · rw [if_neg hentry, if_neg hentry]
      dsimp only [HttpRequestHeaderView.find]
      rw [hmodify, Assoc.lookup_modify, if_neg hne]

/-- **A new name** gets its content. -/
theorem find_insert_new {oom : Bool} (h : view.insert duplicate oom name content = some view')
    (hnew : view.find name = none) : view'.find name = some content := by
  rw [HttpRequestHeaderView.find] at hnew
  rw [HttpRequestHeaderView.insert, hnew] at h
  dsimp only at h
  by_cases hoom : oom = true
  · rw [if_pos hoom] at h
    cases h
  · rw [if_neg hoom] at h
    obtain rfl := Option.some.inj h
    exact (Assoc.lookup_append_singleton hnew).trans (if_pos rfl)

/-- **The loop on a text of pieces** succeeds, keeps the entries of other names, and gives each
new name its content. -/
theorem headerLoop_of_pieces (hduplicate : ∀ old new, (duplicate old new).isSome = true)
    (hoom : ∀ line, oom line = false) {pieces : List (Bytes × Bytes)} {sv : Bytes}
    (h : Pieces pieces sv) (line : ℕ) (view : HttpRequestHeaderView) :
    ∃ view', headerLoop duplicate oom sv.length line view sv = .ok (some view') ∧
      (∀ other, other ∉ pieces.map Prod.fst → view'.find other = view.find other) ∧
      ((pieces.map Prod.fst).Nodup → (∀ name ∈ pieces.map Prod.fst, view.find name = none) →
        ∀ piece ∈ pieces, view'.find piece.1 = some piece.2) := by
  induction h generalizing line view with
  | nil => exact ⟨view, rfl, fun _ _ => rfl, fun _ _ piece hpiece => absurd hpiece List.not_mem_nil⟩
  | @cons name content rest pieces n c colon start ends tail ih =>
      obtain ⟨view₁, hinsert⟩ := exists_insert hduplicate view name content
      obtain ⟨view', hloop, hother, hown⟩ := ih (line + 1) view₁
      refine ⟨view', ?_, ?_, ?_⟩
      · rw [headerLoop_turn line_ne_nil (headerLine_piece colon start ends)
          (by rw [hoom]; exact hinsert)]
        exact hloop
      · intro other hmem
        rw [List.map_cons, List.mem_cons, not_or] at hmem
        rw [hother other hmem.2, find_insert_of_ne hinsert hmem.1]
      · intro hnodup hnew piece hpiece
        rw [List.map_cons, List.nodup_cons] at hnodup
        have hnew₁ : ∀ name' ∈ pieces.map Prod.fst, view₁.find name' = none := by
          intro name' hname'
          rw [find_insert_of_ne hinsert fun heq => hnodup.1 (heq ▸ hname')]
          exact hnew name' (List.mem_cons_of_mem _ hname')
        rcases List.mem_cons.mp hpiece with rfl | hpiece
        · rw [hother name hnodup.1]
          exact find_insert_new hinsert (hnew name List.mem_cons_self)
        · exact hown hnodup.2 hnew₁ piece hpiece

/-- **What the loop accepts** is a text of pieces. -/
theorem exists_pieces_of_headerLoop {sv : Bytes} {line : ℕ}
    (h : headerLoop duplicate oom sv.length line view sv = .ok (some view')) :
    ∃ pieces, Pieces pieces sv := by
  induction hlen : sv.length using Nat.strong_induction_on generalizing sv line view with
  | _ m ih =>
      rcases headerLoop_cases h with ⟨rfl, -⟩ | ⟨l, view₁, -, hline, -, h⟩
      · exact ⟨[], .nil⟩
      · have hlt := (headerLine_append [] hline).1
        obtain ⟨pieces, htail⟩ := ih l.rest.length (by omega) h rfl
        obtain ⟨n, c, colon, start, ends, rfl⟩ := headerLine_eq_some_iff.mp hline
        exact ⟨_, .cons n c colon start ends htail⟩

/-- **What the parser accepts**, when every insertion succeeds: the texts of pieces. -/
theorem parse_isSome_iff (hduplicate : ∀ old new, (duplicate old new).isSome = true)
    (hoom : ∀ line, oom line = false) {input : Bytes} :
    (∃ view, parseHttpRequestHeader duplicate oom input = .ok (some view)) ↔
      ∃ pieces, Pieces pieces input := by
  constructor
  · rintro ⟨view, h⟩
    exact exists_pieces_of_headerLoop h
  · rintro ⟨pieces, h⟩
    obtain ⟨view, hloop, -⟩ := headerLoop_of_pieces hduplicate hoom h 0 {}
    exact ⟨view, hloop⟩

end

/-! ### Lines and pieces -/

/-- A line and a piece of the same text have the same name, and the same spaces. -/
theorem piece_of_line {name value rest name' content rest' : Bytes} {n n' : ℕ} {c : UInt8}
    (colon : 58 ∉ name) (start : value.head? ≠ some 32) (colon' : 58 ∉ name') (start' : c ≠ 32)
    (heq : name ++ 58 :: (List.replicate n 32 ++ (value ++ (crlf ++ rest))) =
      name' ++ 58 :: (List.replicate n' 32 ++ c :: (content ++ (crlf ++ rest')))) :
    name = name' ∧ value ++ (crlf ++ rest) = c :: (content ++ (crlf ++ rest')) := by
  have hends : Ends [58] name := ends_of_notMem colon
  have hends' : Ends [58] name' := ends_of_notMem colon'
  obtain ⟨rfl, hbehind⟩ := hends.append_inj hends' heq
  have hhead : (value ++ (crlf ++ rest)).head? ≠ some 32 := by
    cases value with
    | nil => rw [crlf_eq]; simp
    | cons d value => exact start
  obtain ⟨-, hvalue⟩ := replicate_append_inj hhead (by simpa using start') hbehind
  exact ⟨rfl, hvalue⟩

/-- **A line with a value**: the piece ends where the line ends, without the first byte of
the value. -/
theorem piece_of_value {name value rest content rest' : Bytes} {n : ℕ} {c d : UInt8}
    (ends : Ends crlf (name ++ 58 :: (List.replicate n 32 ++ d :: value)))
    (ends' : Ends crlf content)
    (heq : d :: value ++ (crlf ++ rest) = c :: (content ++ (crlf ++ rest'))) :
    content = value ∧ rest' = rest := by
  have hvalue : Ends crlf value := by
    have hassoc : name ++ 58 :: (List.replicate n 32 ++ d :: value) =
        (name ++ 58 :: (List.replicate n 32 ++ [d])) ++ value := by simp
    rw [hassoc] at ends
    exact ends.of_append
  exact ends'.append_inj hvalue (List.cons.inj heq).2.symm

/-- A line feed in front of a text does not make a line end. -/
theorem ends_line_feed {line : Bytes} (ends : Ends crlf line) : Ends crlf (10 :: line) := by
  rw [crlf_eq] at ends ⊢
  exact ends.cons (by decide)

/-- **A line end in place of a value**: the piece takes the text up to the next line end in. -/
theorem piece_of_line_end {line rest content rest' : Bytes} {c : UInt8} (ends : Ends crlf line)
    (ends' : Ends crlf content)
    (heq : ([] : Bytes) ++ (crlf ++ (line ++ (crlf ++ rest))) = c :: (content ++ (crlf ++ rest'))) :
    content = 10 :: line ∧ rest' = rest := by
  have hbehind : 10 :: line ++ (crlf ++ rest) = content ++ (crlf ++ rest') := (List.cons.inj heq).2
  exact ends'.append_inj (ends_line_feed ends) hbehind.symm

/-- **A line without a value**: the piece takes the next line in. -/
theorem piece_of_empty {rest content rest' : Bytes} {fields : List (Bytes × Bytes)} {c : UInt8}
    (tail : Lines fields rest) (ends' : Ends crlf content)
    (heq : ([] : Bytes) ++ (crlf ++ rest) = c :: (content ++ (crlf ++ rest'))) :
    ∃ name value fields' text, fields = (name, value) :: fields' ∧ content = 10 :: text ∧
      Lines fields' rest' := by
  cases tail with
  | nil =>
      have hlength := congrArg List.length heq
      rw [crlf_eq] at hlength
      simp only [List.length_append, List.length_cons, List.length_nil] at hlength
      omega
  | @cons name value rest fields n colon start ends tail =>
      have hassoc : name ++ 58 :: (List.replicate n 32 ++ (value ++ (crlf ++ rest))) =
          (name ++ 58 :: (List.replicate n 32 ++ value)) ++ (crlf ++ rest) := by simp
      rw [hassoc] at heq
      obtain ⟨rfl, rfl⟩ := piece_of_line_end ends ends' heq
      exact ⟨name, value, fields, _, rfl, rfl, tail⟩

/-- **The pieces of a text of lines** have names of lines, in their order. -/
theorem names_sublist {fields pieces : List (Bytes × Bytes)} {sv : Bytes} (hlines : Lines fields sv)
    (hpieces : Pieces pieces sv) :
    (pieces.map Prod.fst).Sublist (fields.map Prod.fst) := by
  induction hpieces generalizing fields with
  | nil => exact List.nil_sublist _
  | @cons name' content rest' pieces n' c colon' start' ends' tail' ih =>
      generalize htext :
        name' ++ 58 :: (List.replicate n' 32 ++ c :: (content ++ (crlf ++ rest'))) = sv at hlines
      cases hlines with
      | nil => exact absurd htext line_ne_nil
      | @cons name value rest fields n colon start ends tail =>
          obtain ⟨rfl, hvalue⟩ := piece_of_line colon start colon' start' htext.symm
          cases value with
          | nil =>
              obtain ⟨name₂, value₂, fields₂, text, rfl, -, htail⟩ :=
                piece_of_empty tail ends' hvalue
              exact ((ih htail).cons name₂).cons_cons name
          | cons d value =>
              obtain ⟨rfl, rfl⟩ := piece_of_value ends ends' hvalue
              exact (ih tail).cons_cons name

/-- **The first piece** of a text of lines has the name of the first line and another
content. -/
theorem first_piece_ne {name value : Bytes} {fields pieces : List (Bytes × Bytes)} {sv : Bytes}
    (hlines : Lines ((name, value) :: fields) sv) (hpieces : Pieces pieces sv) :
    ∃ content pieces', pieces = (name, content) :: pieces' ∧ content ≠ value := by
  generalize hfields : (name, value) :: fields = all at hlines
  cases hlines with
  | nil => cases hfields
  | @cons name value rest fields n colon start ends tail =>
      obtain ⟨hfield, -⟩ := List.cons.inj hfields
      obtain ⟨rfl, rfl⟩ := Prod.mk.inj hfield
      generalize htext : name ++ 58 :: (List.replicate n 32 ++ (value ++ (crlf ++ rest))) = sv
        at hpieces
      cases hpieces with
      | nil =>
          exact absurd htext line_ne_nil
      | @cons name' content rest' pieces n' c colon' start' ends' tail' =>
          obtain ⟨rfl, hvalue⟩ := piece_of_line colon start colon' start' htext
          refine ⟨content, pieces, rfl, ?_⟩
          cases value with
          | nil =>
              obtain ⟨_, _, _, text, -, rfl, -⟩ := piece_of_empty tail ends' hvalue
              exact List.cons_ne_nil _ _
          | cons d value =>
              obtain ⟨rfl, -⟩ := piece_of_value ends ends' hvalue
              intro hsame
              have hlength := congrArg List.length hsame
              rw [List.length_cons] at hlength
              omega

/-! ### Which texts of lines are cut into pieces -/

/-- **The lines come out even** when each line without a value takes the next one with it. -/
def comesOut : List (Bytes × Bytes) → Bool
  | [] => true
  | [field] => decide (field.2 ≠ [])
  | field :: next :: fields => if field.2 = [] then comesOut fields else comesOut (next :: fields)

/-- Behind a line with a value the cutting goes on with the next line. -/
theorem exists_pieces_value_iff {name value rest : Bytes} {n : ℕ} {d : UInt8} (colon : 58 ∉ name)
    (start : d ≠ 32) (ends : Ends crlf (name ++ 58 :: (List.replicate n 32 ++ d :: value))) :
    (∃ pieces, Pieces pieces
        (name ++ 58 :: (List.replicate n 32 ++ (d :: value ++ (crlf ++ rest))))) ↔
      ∃ pieces, Pieces pieces rest := by
  constructor
  · rintro ⟨pieces, h⟩
    generalize htext : name ++ 58 :: (List.replicate n 32 ++ (d :: value ++ (crlf ++ rest))) = sv
      at h
    cases h with
    | nil => exact absurd htext line_ne_nil
    | @cons name' content rest' pieces n' c colon' start' ends' tail' =>
        have hhead : (d :: value).head? ≠ some 32 := by simpa using start
        obtain ⟨rfl, hvalue⟩ := piece_of_line colon hhead colon' start' htext
        obtain ⟨rfl, rfl⟩ := piece_of_value ends ends' hvalue
        exact ⟨pieces, tail'⟩
  · rintro ⟨pieces, h⟩
    have hassoc : name ++ 58 :: (List.replicate n 32 ++ d :: value) =
        (name ++ 58 :: (List.replicate n 32 ++ [d])) ++ value := by simp
    rw [hassoc] at ends
    exact ⟨_, .cons n d colon start ends.of_append h⟩

/-- **Behind a line without a value** the cutting goes on behind the next line. -/
theorem exists_pieces_empty_iff {name line rest : Bytes} {n : ℕ} (colon : 58 ∉ name)
    (ends : Ends crlf line) :
    (∃ pieces, Pieces pieces (name ++ 58 :: (List.replicate n 32 ++
        ([] ++ (crlf ++ (line ++ (crlf ++ rest))))))) ↔ ∃ pieces, Pieces pieces rest := by
  constructor
  · rintro ⟨pieces, h⟩
    generalize htext : name ++ 58 :: (List.replicate n 32 ++
      ([] ++ (crlf ++ (line ++ (crlf ++ rest))))) = sv at h
    cases h with
    | nil => exact absurd htext line_ne_nil
    | @cons name' content rest' pieces n' c colon' start' ends' tail' =>
        obtain ⟨rfl, hvalue⟩ := piece_of_line colon (by decide) colon' start' htext
        obtain ⟨-, rfl⟩ := piece_of_line_end ends ends' hvalue
        exact ⟨pieces, tail'⟩
  · rintro ⟨pieces, h⟩
    exact ⟨_, .cons n 13 colon (by decide) (ends_line_feed ends) h⟩

/-- A line without a value that is the last one cannot be cut. -/
theorem not_pieces_empty {name : Bytes} {n : ℕ} {pieces : List (Bytes × Bytes)}
    (colon : 58 ∉ name) :
    ¬ Pieces pieces (name ++ 58 :: (List.replicate n 32 ++ ([] ++ (crlf ++ [])))) := by
  intro h
  generalize htext : name ++ 58 :: (List.replicate n 32 ++ ([] ++ (crlf ++ []))) = sv at h
  cases h with
  | nil => exact absurd htext line_ne_nil
  | @cons name' content rest' pieces n' c colon' start' ends' tail' =>
      obtain ⟨-, hvalue⟩ := piece_of_line colon (by decide) colon' start' htext
      obtain ⟨_, _, _, _, hfields, -⟩ := piece_of_empty .nil ends' hvalue
      cases hfields

/-- **Which texts of lines are cut into pieces**: those whose lines come out even. -/
theorem exists_pieces_iff {fields : List (Bytes × Bytes)} {sv : Bytes} (h : Lines fields sv) :
    (∃ pieces, Pieces pieces sv) ↔ comesOut fields = true := by
  induction fields using comesOut.induct generalizing sv with
  | case1 =>
      cases h with
      | nil => exact iff_of_true ⟨[], .nil⟩ rfl
  | case2 field =>
      cases h with
      | @cons name value rest _ n colon start ends tail =>
          cases tail with
          | nil =>
              cases value with
              | nil =>
                  refine iff_of_false ?_ (by simp [comesOut])
                  rintro ⟨pieces, hpieces⟩
                  exact not_pieces_empty colon hpieces
              | cons d value =>
                  rw [exists_pieces_value_iff colon (by simpa using start) ends]
                  exact iff_of_true ⟨[], .nil⟩ (by simp [comesOut])
  | case3 field next fields hempty ih =>
      cases h with
      | @cons name value rest _ n colon start ends tail =>
          obtain rfl : value = [] := hempty
          cases tail with
          | @cons name₂ value₂ rest₂ _ n₂ colon₂ start₂ ends₂ tail₂ =>
              have hassoc : name₂ ++ 58 :: (List.replicate n₂ 32 ++ (value₂ ++ (crlf ++ rest₂))) =
                  (name₂ ++ 58 :: (List.replicate n₂ 32 ++ value₂)) ++ (crlf ++ rest₂) := by simp
              rw [hassoc, exists_pieces_empty_iff colon ends₂, ih tail₂, comesOut, if_pos rfl]
  | case4 field next fields hvalue ih =>
      cases h with
      | @cons name value rest _ n colon start ends tail =>
          cases value with
          | nil => exact absurd rfl hvalue
          | cons d value =>
              rw [exists_pieces_value_iff colon (by simpa using start) ends, ih tail, comesOut,
                if_neg hvalue]

/-! ### The parser and the lines -/

/-- No memory runs out. -/
def noOom : ℕ → Bool := fun _ => false

/-- **The parser does what the lines say** on an input: it succeeds if and only if the input is
a text of lines, and then the map sends each name to the value of its line. -/
def ParsesAsLines (duplicate : Bytes → Bytes → Option Bytes) (input : Bytes) : Prop :=
  ((∃ view, parseHttpRequestHeader duplicate noOom input = .ok (some view)) ↔
    ∃ fields, Lines fields input) ∧
  ∀ fields, Lines fields input → ∀ view,
    parseHttpRequestHeader duplicate noOom input = .ok (some view) →
      ∀ name, view.find name = fields.lookup name

/-- **On a text of lines** with different names the map is never the one of the lines: the
parser fails, or the first name has another content. -/
theorem not_parsesAsLines_of_lines {duplicate : Bytes → Bytes → Option Bytes}
    (hduplicate : ∀ old new, (duplicate old new).isSome = true) {field : Bytes × Bytes}
    {fields : List (Bytes × Bytes)} {input : Bytes} (hlines : Lines (field :: fields) input)
    (hnodup : ((field :: fields).map Prod.fst).Nodup) : ¬ ParsesAsLines duplicate input := by
  rintro ⟨haccepts, hmap⟩
  obtain ⟨name, value⟩ := field
  obtain ⟨view, hview⟩ := haccepts.mpr ⟨_, hlines⟩
  obtain ⟨pieces, hpieces⟩ := (parse_isSome_iff hduplicate fun _ => rfl).mp ⟨view, hview⟩
  obtain ⟨content, pieces', rfl, hne⟩ := first_piece_ne hlines hpieces
  obtain ⟨view', hloop, -, hown⟩ :=
    @headerLoop_of_pieces duplicate noOom hduplicate (fun _ => rfl) _ _ hpieces 0 {}
  obtain rfl : view = view' := Option.some.inj (Except.ok.inj (hview.symm.trans hloop))
  have hfound := hown ((names_sublist hlines hpieces).nodup hnodup) (fun _ _ => rfl) _
    List.mem_cons_self
  have hline := hmap _ hlines view hview name
  rw [hfound, List.lookup_cons_self, Option.some.injEq] at hline
  exact hne hline

/-- **When the parser does what the lines say**: on the empty input, and on the inputs that are
neither a text of lines nor a text of pieces, which it rejects. -/
theorem parsesAsLines_iff {duplicate : Bytes → Bytes → Option Bytes}
    (hduplicate : ∀ old new, (duplicate old new).isSome = true) {input : Bytes}
    (hdistinct : ∀ fields, Lines fields input → (fields.map Prod.fst).Nodup) :
    ParsesAsLines duplicate input ↔
      input = [] ∨ (∀ fields, ¬ Lines fields input) ∧ ∀ pieces, ¬ Pieces pieces input := by
  have haccepts : (∃ view, parseHttpRequestHeader duplicate noOom input = .ok (some view)) ↔
      ∃ pieces, Pieces pieces input := parse_isSome_iff hduplicate fun _ => rfl
  constructor
  · intro h
    by_cases hlines : ∃ fields, Lines fields input
    · obtain ⟨fields, hlines⟩ := hlines
      cases fields with
      | nil =>
          cases hlines with
          | nil => exact .inl rfl
      | cons field fields =>
          exact absurd h (not_parsesAsLines_of_lines hduplicate hlines (hdistinct _ hlines))
    · refine .inr ⟨fun fields hfields => hlines ⟨fields, hfields⟩, fun pieces hpieces => ?_⟩
      exact hlines (h.1.mp (haccepts.mpr ⟨pieces, hpieces⟩))
  · rintro (rfl | ⟨hlines, hpieces⟩)
    · refine ⟨iff_of_true ⟨{}, rfl⟩ ⟨[], .nil⟩, ?_⟩
      intro fields hfields view hview name
      obtain rfl : ({} : HttpRequestHeaderView) = view := Option.some.inj (Except.ok.inj hview)
      generalize htext : ([] : Bytes) = sv at hfields
      cases hfields with
      | nil => rfl
      | cons n colon start ends tail =>
          exact absurd htext.symm line_ne_nil
    · refine ⟨iff_of_false ?_ ?_, fun fields hfields => absurd hfields (hlines fields)⟩
      · rw [haccepts]
        rintro ⟨pieces, h⟩
        exact hpieces pieces h
      · rintro ⟨fields, h⟩
        exact hlines fields h

/-- A text without a colon is neither a text of lines nor a text of pieces. -/
theorem no_fields_of_no_colon {input : Bytes} (hne : input ≠ []) (hcolon : 58 ∉ input) :
    (∀ fields, ¬ Lines fields input) ∧ ∀ pieces, ¬ Pieces pieces input := by
  constructor
  · intro fields h
    cases h with
    | nil => exact hne rfl
    | cons n colon start ends tail =>
        exact hcolon (List.mem_append_right _ List.mem_cons_self)
  · intro pieces h
    cases h with
    | nil => exact hne rfl
    | cons n c colon start ends tail =>
        exact hcolon (List.mem_append_right _ List.mem_cons_self)

/-- A line without a colon is rejected, as it should be. -/
theorem parsesAsLines_abc :
    ParsesAsLines (fun _ new => some new) (text "abc\r\n") :=
  (parsesAsLines_iff (fun _ _ => rfl) fun fields h =>
    absurd h ((no_fields_of_no_colon (by decide) (by decide)).1 fields)).mpr
      (.inr (no_fields_of_no_colon (by decide) (by decide)))

/-! ### Writing fields and reading them back -/

/-- A field that fits into a line. -/
structure WellFormed (field : Bytes × Bytes) : Prop where
  colon : 58 ∉ field.1
  start : field.2.head? ≠ some 32
  ends : Ends crlf (field.1 ++ 58 :: (List.replicate 1 32 ++ field.2))

/-- The fields in their lines, with one space behind each colon. -/
def serialise : List (Bytes × Bytes) → Bytes
  | [] => []
  | field :: fields =>
      field.1 ++ 58 :: (List.replicate 1 32 ++ (field.2 ++ (crlf ++ serialise fields)))

/-- What was written is a text of lines, with these fields. -/
theorem lines_serialise {fields : List (Bytes × Bytes)} (h : ∀ field ∈ fields, WellFormed field) :
    Lines fields (serialise fields) := by
  induction fields with
  | nil => exact .nil
  | cons field fields ih =>
      obtain ⟨colon, start, ends⟩ := h field List.mem_cons_self
      exact .cons 1 colon start ends (ih fun field' hmem => h field' (List.mem_cons_of_mem _ hmem))

/-- **Fields that are written are not read back**, whichever they are. -/
theorem not_parsesAsLines_serialise {duplicate : Bytes → Bytes → Option Bytes}
    (hduplicate : ∀ old new, (duplicate old new).isSome = true) {fields : List (Bytes × Bytes)}
    (hne : fields ≠ []) (hwf : ∀ field ∈ fields, WellFormed field)
    (hnodup : (fields.map Prod.fst).Nodup) : ¬ ParsesAsLines duplicate (serialise fields) := by
  cases fields with
  | nil => exact absurd rfl hne
  | cons field fields => exact not_parsesAsLines_of_lines hduplicate (lines_serialise hwf) hnodup

/-- The value of the line `Host: a` is lost. -/
theorem not_parsesAsLines_host :
    ¬ ParsesAsLines (fun _ new => some new) (serialise [(text "Host", text "a")]) := by
  refine not_parsesAsLines_serialise (fun _ _ => rfl) (List.cons_ne_nil _ _) ?_ (by decide)
  intro field hmem
  obtain rfl := List.mem_singleton.mp hmem
  exact ⟨by decide, by decide, by decide⟩

/-- **The fields of a text of lines** are determined by it. -/
theorem Lines.unique {fields fields' : List (Bytes × Bytes)} {sv : Bytes} (h : Lines fields sv)
    (h' : Lines fields' sv) : fields = fields' := by
  induction h generalizing fields' with
  | nil =>
      generalize htext : ([] : Bytes) = sv at h'
      cases h' with
      | nil => rfl
      | cons n colon start ends tail =>
          exact absurd htext.symm line_ne_nil
  | @cons name value rest fields n colon start ends tail ih =>
      generalize htext : name ++ 58 :: (List.replicate n 32 ++ (value ++ (crlf ++ rest))) = sv at h'
      cases h' with
      | nil => exact absurd htext line_ne_nil
      | @cons name' value' rest' fields' n' colon' start' ends' tail' =>
          have hline : name ++ 58 :: (List.replicate n 32 ++ value) ++ (crlf ++ rest) =
              name' ++ 58 :: (List.replicate n' 32 ++ value') ++ (crlf ++ rest') := by
            simpa using htext
          obtain ⟨hsame, rfl⟩ := ends.append_inj ends' hline
          have hends : Ends [58] name := ends_of_notMem colon
          have hends' : Ends [58] name' := ends_of_notMem colon'
          obtain ⟨rfl, hbehind⟩ := hends.append_inj hends' hsame
          obtain ⟨-, rfl⟩ := replicate_append_inj start start' hbehind
          rw [ih tail']

end Netknot.Http
