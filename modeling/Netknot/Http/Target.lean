import Mathlib.Data.List.TakeWhile
import Netknot.Http.ReadCallback

/-!
# Splitting a Request Target

The dispatch cuts the raw path of a request into a path, a query and a fragment, at the first `?`
and the first `#`, and rejects it when the `#` comes first.

What the parts of a target are is said without positions: they make up the raw path, no part
holds a character that begins a later one, and a query and a fragment begin with theirs. A raw
path has at most one such partition.

## Main results

* `Partition.unique`: a target has one partition.
* `Partition.path_eq`: its path is what stands before every `?` and every `#`.
* `splitTarget_cases`: the splitting rejects its text, or partitions it.
-/

namespace Netknot.Http

open Search

/-- The text `"?"` is one byte. -/
theorem text_query : text "?" = [63] := by decide

/-- The text `"#"` is one byte. -/
theorem text_fragment : text "#" = [35] := by decide

/-- The path of a request target: what stands before its query and its fragment. -/
def pathPart (rawPath : Bytes) : Bytes :=
  rawPath.takeWhile fun c => decide (c ∉ text "?#")

/-- A list up to the first element that fails a test is what `takeWhile` takes. -/
theorem takeWhile_of_first {p : UInt8 → Bool} {l t : Bytes} {c : UInt8}
    (hl : ∀ b ∈ l, p b = true) (hc : p c = false) : (l ++ c :: t).takeWhile p = l := by
  rw [List.takeWhile_append_of_pos hl, List.takeWhile_cons_of_neg (Bool.not_eq_true _ ▸ hc),
    List.append_nil]

/-- A byte belongs to the path if it starts neither a query nor a fragment. -/
theorem path_byte {c : UInt8} {l : Bytes} (hq : (63 : UInt8) ∉ l) (hf : (35 : UInt8) ∉ l)
    (hc : c ∈ l) : decide (c ∉ text "?#") = true := by
  have htext : text "?#" = [63, 35] := by decide
  rw [decide_eq_true_iff, htext]
  intro hmem
  rcases List.mem_cons.mp hmem with rfl | hmem
  · exact hq hc
  · obtain rfl := List.mem_singleton.mp hmem
    exact hf hc

namespace HttpReadAsyncCallback

/-- Both `#` and `?` occur, and the first `#` comes before the first `?`. -/
def FragmentFirst (rawPath : Bytes) : Prop :=
  35 ∈ rawPath ∧ 63 ∈ rawPath ∧ rawPath.idxOf 35 < rawPath.idxOf 63

instance (rawPath : Bytes) : Decidable (FragmentFirst rawPath) :=
  inferInstanceAs (Decidable (_ ∧ _))

/-- **A partition of a raw path** into a path, a query with its `?` and a fragment with
its `#`. -/
structure Partition (rawPath : Bytes) (target : Target) : Prop where
  whole : target.path ++ target.query ++ target.fragment = rawPath
  path_query : 63 ∉ target.path
  path_fragment : 35 ∉ target.path
  query : target.query = [] ∨ target.query.head? = some 63
  query_fragment : 35 ∉ target.query
  fragment : target.fragment = [] ∨ target.fragment.head? = some 35

/-- A character is found where it stands first. -/
theorem find_eq_idxOf {c : UInt8} {s : Bytes} {k : ℕ} (h : find [c] s = some k) :
    c ∈ s ∧ s.idxOf c = k := by
  obtain ⟨l, t, rfl, hl, rfl⟩ := find_singleton_eq_some_iff.mp h
  refine ⟨by simp, ?_⟩
  rw [List.idxOf_append_of_notMem hl, List.idxOf_cons_self, Nat.add_zero]

/-- A text whose characters pass a test is taken as a whole, up to the first character that
fails it. -/
theorem takeWhile_append_of_head {p : UInt8 → Bool} {l t : Bytes} (hl : ∀ b ∈ l, p b = true)
    (ht : ∀ c, t.head? = some c → p c = false) : (l ++ t).takeWhile p = l := by
  cases t with
  | nil =>
      rw [List.append_nil]
      exact List.takeWhile_eq_self_iff.mpr hl
  | cons c t => exact takeWhile_of_first hl (ht c rfl)

namespace Partition

variable {rawPath : Bytes} {target target' : Target}

/-- The path is what stands before every `?` and every `#`. -/
theorem path_eq (h : Partition rawPath target) : target.path = pathPart rawPath := by
  have hhead : ∀ c, (target.query ++ target.fragment).head? = some c →
      decide (c ∉ text "?#") = false := by
    intro c hc
    rcases h.query with hquery | hquery
    · rw [hquery, List.nil_append] at hc
      rcases h.fragment with hfragment | hfragment
      · rw [hfragment] at hc
        cases hc
      · rw [hfragment] at hc
        obtain rfl := Option.some.inj hc
        decide
    · rw [List.head?_append, hquery, Option.some_or] at hc
      obtain rfl := Option.some.inj hc
      decide
  rw [pathPart, ← h.whole, List.append_assoc]
  exact (takeWhile_append_of_head (fun c hc => path_byte h.path_query h.path_fragment hc)
    hhead).symm

/-- The query is what stands before every `#` behind the path. -/
theorem query_eq (h : Partition rawPath target) :
    target.query = (target.query ++ target.fragment).takeWhile fun c => decide (c ≠ 35) := by
  refine (takeWhile_append_of_head (fun c hc => ?_) fun c hc => ?_).symm
  · refine decide_eq_true fun heq => ?_
    rw [heq] at hc
    exact h.query_fragment hc
  · rcases h.fragment with hfragment | hfragment
    · rw [hfragment] at hc
      cases hc
    · rw [hfragment] at hc
      obtain rfl := Option.some.inj hc
      decide

/-- **A target has one partition.** -/
theorem unique (h : Partition rawPath target) (h' : Partition rawPath target') :
    target = target' := by
  have hpath : target.path = target'.path := h.path_eq.trans h'.path_eq.symm
  have hrest : target.query ++ target.fragment = target'.query ++ target'.fragment := by
    have hwhole := h.whole.trans h'.whole.symm
    rw [List.append_assoc, List.append_assoc, hpath] at hwhole
    exact List.append_cancel_left hwhole
  have hquery : target.query = target'.query := by rw [h.query_eq, hrest, ← h'.query_eq]
  have hfragment : target.fragment = target'.fragment := by
    rw [hquery] at hrest
    exact List.append_cancel_left hrest
  cases target
  cases target'
  simp only [Target.mk.injEq]
  exact ⟨hpath, hquery, hfragment⟩

end Partition

/-! ### The splitting -/

/-- A target without `#` is split into its path and its query. -/
theorem splitTarget_no_fragment {rawPath : Bytes} (hf : 35 ∉ rawPath) :
    ∃ target, splitTarget rawPath = .ok (some target) ∧ Partition rawPath target := by
  have hfind : find [35] rawPath = none := find_singleton_eq_none_iff.mpr hf
  cases hq : find [63] rawPath with
  | none =>
      refine ⟨{ path := rawPath }, ?_, ?_⟩
      · rw [splitTarget, text_fragment, text_query, hfind, hq]
        rfl
      · exact
          { whole := by simp
            path_query := find_singleton_eq_none_iff.mp hq
            path_fragment := hf
            query := .inl rfl
            query_fragment := List.not_mem_nil
            fragment := .inl rfl }
  | some offQuery =>
      obtain ⟨l, t, rfl, hl, rfl⟩ := find_singleton_eq_some_iff.mp hq
      have hlf : 35 ∉ l ∧ 35 ∉ (63 : UInt8) :: t := by
        rwa [List.mem_append, not_or] at hf
      refine ⟨{ path := l, query := 63 :: t }, ?_, ?_⟩
      · rw [splitTarget, text_fragment, text_query, hfind, hq]
        simp [bind, Except.bind, pure, Except.pure]
      · exact
          { whole := by simp
            path_query := hl
            path_fragment := hlf.1
            query := .inr rfl
            query_fragment := hlf.2
            fragment := .inl rfl }

/-- A target with `#` and without `?` has a fragment and no query. -/
theorem splitTarget_no_query {l t : Bytes} (hq : 63 ∉ l ++ 35 :: t) (hl : 35 ∉ l) :
    splitTarget (l ++ 35 :: t) = .ok (some { path := l, fragment := 35 :: t }) ∧
      Partition (l ++ 35 :: t) { path := l, fragment := 35 :: t } := by
  have hfind : find [35] (l ++ 35 :: t) = some l.length :=
    find_singleton_eq_some_iff.mpr ⟨l, t, rfl, hl, rfl⟩
  have hnone : find [63] (l ++ 35 :: t) = none := find_singleton_eq_none_iff.mpr hq
  constructor
  · rw [splitTarget, text_fragment, text_query, hfind, hnone]
    simp [bind, Except.bind, pure, Except.pure]
  · exact
      { whole := by simp
        path_query := fun hmem => hq (List.mem_append_left _ hmem)
        path_fragment := hl
        query := .inl rfl
        query_fragment := List.not_mem_nil
        fragment := .inr rfl }

/-- A target with a `?` and a `#` behind it has a query and a fragment. -/
theorem splitTarget_query_fragment {l m t : Bytes} (hl : 63 ∉ l) (hlf : 35 ∉ l) (hm : 35 ∉ m) :
    splitTarget (l ++ (63 :: m) ++ 35 :: t) =
        .ok (some { path := l, query := 63 :: m, fragment := 35 :: t }) ∧
      Partition (l ++ (63 :: m) ++ 35 :: t)
        { path := l, query := 63 :: m, fragment := 35 :: t } := by
  have hfront : 35 ∉ l ++ (63 :: m) := by
    rw [List.mem_append, List.mem_cons, not_or, not_or]
    exact ⟨hlf, by decide, hm⟩
  have hfind : find [35] (l ++ (63 :: m) ++ 35 :: t) = some (l ++ (63 :: m)).length :=
    find_singleton_eq_some_iff.mpr ⟨_, t, rfl, hfront, rfl⟩
  have hquery : find [63] (l ++ (63 :: m) ++ 35 :: t) = some l.length :=
    find_singleton_eq_some_iff.mpr ⟨l, m ++ 35 :: t, by simp, hl, rfl⟩
  constructor
  · rw [splitTarget, text_fragment, text_query, hfind, hquery]
    simp [bind, Except.bind, pure, Except.pure]
  · exact
      { whole := rfl
        path_query := hl
        path_fragment := hlf
        query := .inr rfl
        query_fragment := fun hmem => hfront (List.mem_append_right _ hmem)
        fragment := .inr rfl }

/-- **The splitting rejects its text, or partitions it.** -/
theorem splitTarget_cases (rawPath : Bytes) :
    (FragmentFirst rawPath ∧ splitTarget rawPath = .ok none) ∨
      ¬FragmentFirst rawPath ∧
        ∃ target, splitTarget rawPath = .ok (some target) ∧ Partition rawPath target := by
  cases hf : find [35] rawPath with
  | none =>
      have hnof : 35 ∉ rawPath := find_singleton_eq_none_iff.mp hf
      exact .inr ⟨fun h => hnof h.1, splitTarget_no_fragment hnof⟩
  | some offFragment =>
      cases hq : find [63] rawPath with
      | none =>
          have hnoq : 63 ∉ rawPath := find_singleton_eq_none_iff.mp hq
          obtain ⟨l, t, rfl, hl, rfl⟩ := find_singleton_eq_some_iff.mp hf
          exact .inr ⟨fun h => hnoq h.2.1, _, splitTarget_no_query hnoq hl⟩
      | some offQuery =>
          obtain ⟨hmemf, hidxf⟩ := find_eq_idxOf hf
          obtain ⟨hmemq, hidxq⟩ := find_eq_idxOf hq
          by_cases hlt : offFragment < offQuery
          · refine .inl ⟨⟨hmemf, hmemq, by omega⟩, ?_⟩
            rw [splitTarget, text_fragment, text_query, hf, hq]
            simp only [if_pos hlt]
            rfl
          · refine .inr ⟨fun h => hlt (hidxf ▸ hidxq ▸ h.2.2), ?_⟩
            obtain ⟨front, t, rfl, hfront, rfl⟩ := find_singleton_eq_some_iff.mp hf
            obtain ⟨l, r, hsplit, hl, rfl⟩ := find_singleton_eq_some_iff.mp hq
            -- the `#` is not in front of the `?`, so `front` begins with `l` and its `?`
            rcases List.append_eq_append_iff.mp hsplit with ⟨m, rfl, hrest⟩ | ⟨m, rfl, hrest⟩
            · cases m with
              | nil => exact absurd (List.cons.inj hrest).1 (by decide)
              | cons c m =>
                  rw [List.length_append, List.length_cons] at hlt
                  omega
            · cases m with
              | nil => exact absurd (List.cons.inj hrest).1 (by decide)
              | cons c m =>
                  obtain ⟨rfl, -⟩ := List.cons.inj hrest
                  rw [List.mem_append, List.mem_cons, not_or, not_or] at hfront
                  exact ⟨_, splitTarget_query_fragment hl hfront.1 hfront.2.2⟩

end HttpReadAsyncCallback

end Netknot.Http
