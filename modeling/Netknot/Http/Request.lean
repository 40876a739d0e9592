import Netknot.Http.Fragmentation
import Netknot.Http.Head

/-!
# The Grammar of Request Heads

Which bytes are a request head, and of which request. A request line is cut at its first two
spaces, and its last field may hold more of them; a header block is cut into pieces. `Spells`
puts the two together. A text with a blank line at its end, and none before, spells at most
one request, and when it spells none the parser of its request line or of its header block
says so.

## Main results

* `parseHttpRequestLine_iff`: parsing a request line undoes writing it.
* `parseHttpRequestHeader_iff`: the parser of the header block, by the pieces of the block.
* `find_insertAll`: what a header comes to that is there more than once.
* `spells_or`: a text spells a request, or one of its two parts cannot be parsed.
* `Spells.unique`: it spells one request only.
* `head_parsed_iff`: parsing a head undoes spelling it.
-/

namespace Netknot.Http

open Search

/-! ### Request lines -/

/-- **Parsing undoes writing.** A line is parsed into the one view that writes it and has no
space in its method and its path. -/
theorem parseHttpRequestLine_iff {l : Bytes} {view : HttpRequestLineView} :
    parseHttpRequestLine l = .ok (some view) ↔
      view.line = l ∧ 32 ∉ view.method ∧ 32 ∉ view.path := by
  have hspace : text " " = [32] := by decide
  constructor
  · intro h
    rw [parseHttpRequestLine_eq, hspace, Except.ok.injEq, Option.bind_eq_some_iff] at h
    obtain ⟨i, hi, h⟩ := h
    obtain ⟨j, hj, rfl⟩ := Option.map_eq_some_iff.mp h
    obtain ⟨method, t, rfl, hmethod, rfl⟩ := find_singleton_eq_some_iff.mp hi
    rw [drop_length_succ] at hj
    obtain ⟨path, version, rfl, hpath, rfl⟩ := find_singleton_eq_some_iff.mp hj
    rw [drop_length_succ, drop_length_succ, List.take_left, List.take_left]
    exact ⟨rfl, hmethod, hpath⟩
  · rintro ⟨rfl, hmethod, hpath⟩
    have hfirst : find [32] view.line = some view.method.length :=
      find_singleton_eq_some_iff.mpr ⟨_, _, rfl, hmethod, rfl⟩
    have hbehind : view.line.drop (view.method.length + 1) = view.path ++ 32 :: view.version :=
      drop_length_succ _ _ _
    have hsecond : find [32] (view.path ++ 32 :: view.version) = some view.path.length :=
      find_singleton_eq_some_iff.mpr ⟨_, _, rfl, hpath, rfl⟩
    rw [parseHttpRequestLine_eq, hspace, hfirst, Option.bind_some, hbehind, hsecond,
      Option.map_some, drop_length_succ, HttpRequestLineView.line, List.take_left, List.take_left]

/-- The parser of the request line says something of every line. -/
theorem parseHttpRequestLine_ok (l : Bytes) :
    parseHttpRequestLine l = .ok none ∨ ∃ view, parseHttpRequestLine l = .ok (some view) := by
  rw [parseHttpRequestLine_eq]
  cases (find (text " ") l).bind fun i => (find (text " ") (l.drop (i + 1))).map fun j =>
      ({ method := l.take i
         path := (l.drop (i + 1)).take j
         version := (l.drop (i + 1)).drop (j + 1) } : HttpRequestLineView) with
  | none => exact .inl rfl
  | some view => exact .inr ⟨view, rfl⟩

/-! ### Header blocks -/

/-- The entries are inserted one after the other. -/
def HttpRequestHeaderView.insertAll (duplicate : Bytes → Bytes → Option Bytes)
    (view : HttpRequestHeaderView) (fields : List (Bytes × Bytes)) :
    Option HttpRequestHeaderView :=
  fields.foldlM (fun view field => view.insert duplicate false field.1 field.2) view

/-- **What the entries of one name come to**, when `kept` is there before them. -/
def fieldValue (duplicate : Bytes → Bytes → Option Bytes) (name : Bytes) (kept : Option Bytes)
    (fields : List (Bytes × Bytes)) : Option Bytes :=
  fields.foldl (fun kept field =>
    if field.1 ≠ name then kept
    else match kept with
      | none => some field.2
      | some old => duplicate old field.2) kept

section

variable {duplicate : Bytes → Bytes → Option Bytes} {fields : List (Bytes × Bytes)} {sv : Bytes}

/-- **The loop on a text of pieces** inserts them. -/
theorem headerLoop_of_pieces_eq (h : Pieces fields sv) (line : ℕ) (view : HttpRequestHeaderView) :
    headerLoop duplicate (fun _ => false) sv.length line view sv =
      .ok (view.insertAll duplicate fields) := by
  induction h generalizing line view with
  | nil => rfl
  | @cons name content rest pieces n c colon start ends tail ih =>
      have hline := @headerLine_piece name content rest n c colon start ends
      rw [HttpRequestHeaderView.insertAll, List.foldlM_cons]
      cases hinsert : view.insert duplicate false name content with
      | some view₁ =>
          rw [headerLoop_turn line_ne_nil hline hinsert]
          exact ih (line + 1) view₁
      | none => exact headerLoop_refused line_ne_nil hline hinsert

/-- A piece that cannot be inserted ends the loop, whatever stands behind the pieces. -/
theorem headerLoop_append_of_pieces (h : Pieces fields sv) (t : Bytes) (line : ℕ)
    {view : HttpRequestHeaderView} (hnone : view.insertAll duplicate fields = none) :
    headerLoop duplicate (fun _ => false) (sv ++ t).length line view (sv ++ t) = .ok none := by
  induction h generalizing line view with
  | nil => cases hnone
  | @cons name content rest pieces n c colon start ends tail ih =>
      obtain ⟨-, hline⟩ := headerLine_append t
        (@headerLine_piece name content rest n c colon start ends)
      have hne := List.append_ne_nil_of_left_ne_nil
        (@line_ne_nil name (List.replicate n 32 ++ c :: (content ++ (crlf ++ rest)))) t
      rw [HttpRequestHeaderView.insertAll, List.foldlM_cons] at hnone
      cases hinsert : view.insert duplicate false name content with
      | some view₁ =>
          rw [hinsert] at hnone
          rw [headerLoop_turn hne hline hinsert]
          exact ih (line + 1) hnone
      | none => exact headerLoop_refused hne hline hinsert

/-- **The parser accepts a header block** if and only if the block is a text of pieces, which are
then inserted. -/
theorem parseHttpRequestHeader_iff {block : Bytes} {view : HttpRequestHeaderView} :
    parseHttpRequestHeader duplicate (fun _ => false) block = .ok (some view) ↔
      ∃ fields, Pieces fields block ∧
        HttpRequestHeaderView.insertAll duplicate {} fields = some view := by
  constructor
  · intro h
    obtain ⟨fields, hpieces⟩ := exists_pieces_of_headerLoop h
    refine ⟨fields, hpieces, ?_⟩
    rw [parseHttpRequestHeader, headerLoop_of_pieces_eq hpieces] at h
    exact Except.ok.inj h
  · rintro ⟨fields, hpieces, hinsert⟩
    rw [parseHttpRequestHeader, headerLoop_of_pieces_eq hpieces, hinsert]

/-- A block that is no text of pieces is not parsed. -/
theorem parseHttpRequestHeader_none {block : Bytes} (h : ¬∃ fields, Pieces fields block) :
    parseHttpRequestHeader duplicate (fun _ => false) block = .ok none := by
  obtain ⟨result, hresult⟩ := @headerLoop_ok duplicate (fun _ => false) block.length 0 {} block
  cases result with
  | none => exact hresult
  | some view => exact absurd (exists_pieces_of_headerLoop hresult) h

/-- **A text has one cut into pieces.** -/
theorem Pieces.unique {fields' : List (Bytes × Bytes)} (h : Pieces fields sv)
    (h' : Pieces fields' sv) : fields = fields' := by
  induction h generalizing fields' with
  | nil =>
      generalize hnil : ([] : Bytes) = t at h'
      cases h' with
      | nil => rfl
      | cons n c colon start ends tail => exact absurd hnil.symm line_ne_nil
  | @cons name content rest pieces n c colon start ends tail ih =>
      have hline := @headerLine_piece name content rest n c colon start ends
      generalize htext : name ++ 58 :: (List.replicate n 32 ++ c :: (content ++ (crlf ++ rest))) =
        t at h' hline
      cases h' with
      | nil => exact absurd htext line_ne_nil
      | @cons name' content' rest' pieces' n' c' colon' start' ends' tail' =>
          have hline' := @headerLine_piece name' content' rest' n' c' colon' start' ends'
          have heq := hline.symm.trans hline'
          simp only [Except.ok.injEq, Option.some.injEq, HeaderLine.mk.injEq] at heq
          obtain ⟨rfl, rfl, rfl⟩ := heq
          rw [ih tail']

/-- An insertion at a key that is there keeps what `duplicate` keeps. -/
theorem find_insert_old {view view' : HttpRequestHeaderView} {name content old : Bytes}
    (h : view.insert duplicate false name content = some view')
    (hold : view.find name = some old) : view'.find name = duplicate old content := by
  rw [HttpRequestHeaderView.find] at hold
  rw [HttpRequestHeaderView.insert, hold] at h
  obtain ⟨kept, hkept, rfl⟩ := Option.map_eq_some_iff.mp h
  have hmodify : (view.headers.map fun entry =>
      if entry.1 = name then (name, kept) else entry) =
        Assoc.modify name (fun _ => kept) view.headers := by
    refine List.map_congr_left fun entry _ => ?_
    by_cases hentry : entry.1 = name
    · rw [if_pos hentry, if_pos hentry, hentry]
    · rw [if_neg hentry, if_neg hentry]
  rw [HttpRequestHeaderView.find, hkept]
  dsimp only
  rw [hmodify, Assoc.lookup_modify_const hold, if_pos rfl]

/-- **A header comes to** what the entries of its name come to, in the table of a block. -/
theorem find_insertAll {view view' : HttpRequestHeaderView}
    (h : view.insertAll duplicate fields = some view') (name : Bytes) :
    view'.find name = fieldValue duplicate name (view.find name) fields := by
  induction fields generalizing view with
  | nil =>
      obtain rfl := Option.some.inj h
      rfl
  | cons field fields ih =>
      rw [HttpRequestHeaderView.insertAll, List.foldlM_cons] at h
      obtain ⟨view₁, hinsert, h⟩ := Option.bind_eq_some_iff.mp h
      rw [ih h, fieldValue, fieldValue, List.foldl_cons]
      congr 1
      by_cases hname : field.1 = name
      · subst hname
        rw [if_neg (not_not.mpr rfl)]
        cases hfind : view.find field.1 with
        | none => exact find_insert_new hinsert hfind
        | some old => exact find_insert_old hinsert hfind
      · rw [if_pos hname]
        exact find_insert_of_ne hinsert (Ne.symm hname)

end

/-! ### Heads -/

/-- A request, up to its body. -/
structure Request where
  line : HttpRequestLineView
  /-- The names and contents of its headers, as the parser cuts them. -/
  fields : List (Bytes × Bytes)
  deriving DecidableEq, Repr

/-- **The bytes of a request head.** -/
structure Request.Spells (r : Request) (s : Bytes) : Prop where
  blank : OnlyAtEnd blankLine s
  method_space : 32 ∉ r.line.method
  path_space : 32 ∉ r.line.path
  lineEnd : Ends crlf r.line.line
  block : ∃ block, Pieces r.fields block ∧ s = r.line.line ++ (crlf ++ (block ++ crlf))

section

variable {s : Bytes} {p : ℕ} {r : Request}

/-- A text with a blank line at its end consists of its request line and its header block. -/
theorem eq_line_block (hs : OnlyAtEnd blankLine s) (hp : find crlf s = some p)
    (hshape : s.length = p + 4 ∨ p + 6 ≤ s.length) :
    s = s.take p ++ (crlf ++ (slice s (p + 2) (s.length - 2) ++ crlf)) := by
  have hend : slice s (s.length - 2) s.length = crlf := by
    rw [slice_length_right]
    exact (List.suffix_iff_eq_drop.mp ((by decide : crlf <:+ blankLine).trans hs.1)).symm
  have hline : s = s.take p ++ crlf ++ s.drop (p + 2) := eq_of_find hp
  have hrest : s.drop (p + 2) = slice s (p + 2) (s.length - 2) ++ crlf := by
    rw [← slice_length_right, ← hend]
    exact (slice_append_slice s (by omega) (by omega)).symm
  rw [← hrest, ← List.append_assoc]
  exact hline

/-- A text that spells a request shows the reader its request line first and its header block
behind it. -/
theorem Request.Spells.shape (h : r.Spells s) :
    find crlf s = some r.line.line.length ∧ s.take r.line.line.length = r.line.line ∧
      Pieces r.fields (slice s (r.line.line.length + 2) (s.length - 2)) ∧
      (r.fields = [] ↔ s.length = r.line.line.length + 4) := by
  obtain ⟨block, hpieces, rfl⟩ := h.block
  have hcrlf : crlf.length = 2 := rfl
  refine ⟨h.lineEnd.find_append _, List.take_left, ?_, ?_⟩
  · have hslice := slice_append_append (r.line.line ++ crlf) block crlf
    have hlength : (r.line.line ++ (crlf ++ (block ++ crlf))).length - 2 =
        (r.line.line ++ crlf).length + block.length := by
      simp only [List.length_append, hcrlf]
      omega
    rw [hlength]
    rw [List.append_assoc, List.length_append, hcrlf] at hslice
    rw [List.length_append, hcrlf, hslice]
    exact hpieces
  · simp only [List.length_append, hcrlf]
    constructor
    · intro hnil
      rw [hnil] at hpieces
      cases hpieces
      rfl
    · intro hlength
      obtain rfl : block = [] := List.length_eq_zero_iff.mp (by omega)
      exact hpieces.unique .nil

/-- **A text spells a request, or one of its parts cannot be parsed.** -/
theorem spells_or (hs : OnlyAtEnd blankLine s) (hp : find crlf s = some p)
    (hshape : s.length = p + 4 ∨ p + 6 ≤ s.length) :
    (∃ r : Request, r.Spells s) ∨
      (¬∃ r : Request, r.Spells s) ∧ (parseHttpRequestLine (s.take p) = .ok none ∨
        (∃ view, parseHttpRequestLine (s.take p) = .ok (some view)) ∧ p + 6 ≤ s.length ∧
          ¬∃ fields, Pieces fields (slice s (p + 2) (s.length - 2))) := by
  have hspells : ∀ r : Request, r.Spells s → parseHttpRequestLine (s.take p) = .ok (some r.line) ∧
      Pieces r.fields (slice s (p + 2) (s.length - 2)) := by
    intro r hr
    obtain ⟨hfind, htake, hpieces, -⟩ := hr.shape
    obtain rfl : r.line.line.length = p := Option.some.inj (hfind.symm.trans hp)
    exact ⟨parseHttpRequestLine_iff.mpr ⟨htake.symm, hr.method_space, hr.path_space⟩, hpieces⟩
  rcases parseHttpRequestLine_ok (s.take p) with hnone | ⟨view, hview⟩
  · refine .inr ⟨?_, .inl hnone⟩
    rintro ⟨r, hr⟩
    cases hnone.symm.trans (hspells r hr).1
  · by_cases hpieces : ∃ fields, Pieces fields (slice s (p + 2) (s.length - 2))
    · obtain ⟨fields, hfields⟩ := hpieces
      obtain ⟨hline, hmethod, hpath⟩ := parseHttpRequestLine_iff.mp hview
      refine .inl ⟨⟨view, fields⟩, hs, hmethod, hpath, ?_, _, hfields, ?_⟩
      · obtain ⟨line, rest, htext, ends, rfl⟩ := exists_ends_of_find crlf_ne_nil hp
        rw [htext, List.take_left] at hline
        exact hline ▸ ends
      · rw [hline]
        exact eq_line_block hs hp hshape
    · refine .inr ⟨fun ⟨r, hr⟩ => hpieces ⟨r.fields, (hspells r hr).2⟩, .inr ⟨⟨view, hview⟩, ?_,
        hpieces⟩⟩
      refine hshape.resolve_left fun hshort => hpieces ⟨[], ?_⟩
      have hnil : slice s (p + 2) (s.length - 2) = [] := by
        rw [hshort, show p + 4 - 2 = p + 2 by omega, slice_self]
      rw [hnil]
      exact .nil

/-- **A text spells one request.** -/
theorem Request.Spells.unique {r' : Request} (h : r.Spells s) (h' : r'.Spells s) : r = r' := by
  obtain ⟨hfind, htake, hpieces, -⟩ := h.shape
  obtain ⟨hfind', htake', hpieces', -⟩ := h'.shape
  have hlength : r.line.line.length = r'.line.line.length :=
    Option.some.inj (hfind.symm.trans hfind')
  have hparse := parseHttpRequestLine_iff.mpr ⟨htake.symm, h.method_space, h.path_space⟩
  have hparse' := parseHttpRequestLine_iff.mpr ⟨htake'.symm, h'.method_space, h'.path_space⟩
  rw [hlength] at hparse hpieces
  obtain ⟨line, fields⟩ := r
  obtain ⟨line', fields'⟩ := r'
  obtain rfl : line = line' := Option.some.inj (Except.ok.inj (hparse.symm.trans hparse'))
  rw [show fields = fields' from hpieces.unique hpieces']

/-- **Parsing a head undoes spelling it.** Of a text with a blank line at its end, the parsers of
the request line and of the header block accept their parts exactly if it spells a request, whose
line is the one that was parsed; and the table answers what the entries of each name come to. -/
theorem head_parsed_iff (hs : OnlyAtEnd blankLine s) (duplicate : Bytes → Bytes → Option Bytes) :
    ∃ p, find crlf s = some p ∧ ∀ line view,
      (parseHttpRequestLine (s.take p) = .ok (some line) ∧
        parseHttpRequestHeader duplicate (fun _ => false) (slice s (p + 2) (s.length - 2)) =
          .ok (some view)) ↔
      ∃ fields, Request.Spells ⟨line, fields⟩ s ∧
        HttpRequestHeaderView.insertAll duplicate {} fields = some view ∧
        ∀ name, view.find name = fieldValue duplicate name none fields := by
  obtain ⟨p, hp, hshape⟩ := exists_lineEnd hs
  refine ⟨p, hp, fun line view => ⟨?_, ?_⟩⟩
  · rintro ⟨hline, hblock⟩
    obtain ⟨fields, hfields, hinsert⟩ := parseHttpRequestHeader_iff.mp hblock
    have hspells : ∃ r : Request, r.Spells s := by
      refine (spells_or hs hp hshape).resolve_right ?_
      rintro ⟨-, hnone | ⟨-, -, hnot⟩⟩
      · cases hline.symm.trans hnone
      · exact hnot ⟨fields, hfields⟩
    obtain ⟨r, hr⟩ := hspells
    obtain ⟨hfind, htake, hpieces, -⟩ := hr.shape
    obtain rfl : r.line.line.length = p := Option.some.inj (hfind.symm.trans hp)
    have hparse := parseHttpRequestLine_iff.mpr ⟨htake.symm, hr.method_space, hr.path_space⟩
    obtain rfl : r.line = line := Option.some.inj (Except.ok.inj (hparse.symm.trans hline))
    obtain rfl : r.fields = fields := hpieces.unique hfields
    exact ⟨r.fields, hr, hinsert, find_insertAll hinsert⟩
  · rintro ⟨fields, hr, hinsert, -⟩
    obtain ⟨hfind, htake, hpieces, -⟩ := hr.shape
    obtain rfl := Option.some.inj (hfind.symm.trans hp)
    exact ⟨parseHttpRequestLine_iff.mpr ⟨htake.symm, hr.method_space, hr.path_space⟩,
      parseHttpRequestHeader_iff.mpr ⟨fields, hpieces, hinsert⟩⟩

/-- A head with one header is parsed, and its value loses the first byte. -/
theorem head_parsed_getRequest :
    ∃ line fields, Request.Spells ⟨line, fields⟩ getRequest ∧
      ∀ name, HttpRequestHeaderView.find { headers := [(text "Host", text "y")] } name =
        fieldValue (fun _ _ => none) name none fields := by
  obtain ⟨p, hp, hparsed⟩ := head_parsed_iff onlyAtEnd_getRequest fun _ _ => none
  have hline : find crlf getRequest = some 15 := by decide
  obtain rfl : 15 = p := Option.some.inj (hline.symm.trans hp)
  obtain ⟨fields, hspells, -, hfind⟩ := (hparsed ⟨text "GET", text "/a", text "HTTP/1.1"⟩
    { headers := [(text "Host", text "y")] }).mp ⟨by decide, by decide⟩
  exact ⟨_, fields, hspells, hfind⟩

end

end Netknot.Http
