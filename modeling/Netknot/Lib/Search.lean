import Mathlib.Data.List.Infix
import Mathlib.Tactic.Common

/-!
# Searching for a Pattern in a List

`find pat s` is the position of the first occurrence of `pat` in `s`, as the `find` of a
string computes it. Occurrences are a proposition, `OccursAt pat s k`; `find` is
characterized by them (`find_eq_some_iff`, `find_eq_none_iff`), and how a search behaves on
a part of a list follows from how occurrences do.

## Main results

* `occursAt_take`, `occursAt_drop`: the occurrences in a part of a list.
* `slice_append_slice`: the slices of a list at consecutive positions make up a slice.
* `InOrder.pairwise`, `InOrder.mem`: spans that follow one another are disjoint and inside the list.
* `find_slice`: what a search in a slice that starts before the first occurrence finds.
* `find_append_of_eq_some`: a found occurrence stays the first when the list is continued.
-/

namespace Search

variable {α : Type*}

/-- `pat` stands in `s` at position `k`. -/
def OccursAt (pat s : List α) (k : ℕ) : Prop := pat <+: s.drop k

/-- The occurrence of `pat` at the end of `s` is its only one. -/
def OnlyAtEnd (pat s : List α) : Prop :=
  pat <:+ s ∧ ∀ k, OccursAt pat s k → k + pat.length = s.length

/-- The position of the first occurrence of `pat`. -/
def find [DecidableEq α] (pat : List α) : List α → Option ℕ
  | [] => if pat.isEmpty then some 0 else none
  | a :: s => if pat.isPrefixOf (a :: s) then some 0 else (find pat s).map (· + 1)

instance [DecidableEq α] (pat s : List α) (k : ℕ) : Decidable (OccursAt pat s k) :=
  inferInstanceAs (Decidable (pat <+: s.drop k))

/-- The part of `s` from position `k` up to position `m`. -/
def slice (s : List α) (k m : ℕ) : List α := (s.take m).drop k

/-! ### Slices -/

@[simp] theorem slice_self (s : List α) (k : ℕ) : slice s k k = [] := by
  rw [slice, List.drop_eq_nil_iff, List.length_take]
  omega

@[simp] theorem slice_zero (s : List α) (m : ℕ) : slice s 0 m = s.take m := rfl

/-- A slice up to the end is the rest of the list. -/
theorem slice_length_right (s : List α) (k : ℕ) : slice s k s.length = s.drop k := by
  rw [slice, List.take_length]

theorem length_slice (s : List α) (k m : ℕ) : (slice s k m).length = min m s.length - k := by
  rw [slice, List.length_drop, List.length_take]

/-- Consecutive slices make up a slice. -/
theorem slice_append_slice (s : List α) {k m n : ℕ} (hkm : k ≤ m) (hmn : m ≤ n) :
    slice s k m ++ slice s m n = slice s k n := by
  unfold slice
  obtain ⟨i, rfl⟩ := Nat.exists_eq_add_of_le hkm
  obtain ⟨j, rfl⟩ := Nat.exists_eq_add_of_le hmn
  rw [List.drop_take, List.drop_take, List.drop_take, Nat.add_sub_cancel_left,
    Nat.add_sub_cancel_left, Nat.add_assoc, Nat.add_sub_cancel_left, List.take_add,
    List.drop_drop]

/-- The front of a slice is a slice from the same start. -/
theorem take_slice (s : List α) {k m : ℕ} (j : ℕ) (h : k + j ≤ m) :
    (slice s k m).take j = slice s k (k + j) := by
  unfold slice
  rw [List.drop_take, List.drop_take, List.take_take, Nat.add_sub_cancel_left,
    Nat.min_eq_left (by omega)]

/-- The rest of a slice is a slice with the same end. -/
theorem drop_slice (s : List α) (k m j : ℕ) : (slice s k m).drop j = slice s (k + j) m := by
  unfold slice
  rw [List.drop_drop]

/-- What stands between two parts of a list is the slice between them. -/
theorem slice_append_append (a b c : List α) :
    slice (a ++ (b ++ c)) a.length (a.length + b.length) = b := by
  rw [slice, ← List.append_assoc, ← List.length_append, List.take_left, List.drop_left]

/-! ### Spans -/

/-- The place of a slice. -/
structure Span where
  start : ℕ
  stop : ℕ
  le : start ≤ stop

/-- What stands at a span of `s`. -/
def Span.of (s : List α) (span : Span) : List α := slice s span.start span.stop

/-- **Spans that follow one another** from position `k` to position `n`. -/
inductive InOrder (n : ℕ) : ℕ → List Span → Prop
  | nil {k : ℕ} (le : k ≤ n) : InOrder n k []
  | cons {k : ℕ} {span : Span} {spans : List Span} (start : k ≤ span.start)
      (tail : InOrder n span.stop spans) : InOrder n k (span :: spans)

/-- Spans in order lie between the two positions. -/
theorem InOrder.mem {n k : ℕ} {spans : List Span} (h : InOrder n k spans) :
    k ≤ n ∧ ∀ span ∈ spans, k ≤ span.start ∧ span.stop ≤ n := by
  induction h with
  | nil le => exact ⟨le, fun span hspan => absurd hspan List.not_mem_nil⟩
  | @cons k span spans start tail ih =>
      have hle := span.le
      refine ⟨by omega, fun other hother => ?_⟩
      rcases List.mem_cons.mp hother with rfl | hother
      · exact ⟨start, ih.1⟩
      · have hbounds := ih.2 other hother
        exact ⟨by omega, hbounds.2⟩

/-- **No two of them overlap**: each ends before the next ones start. -/
theorem InOrder.pairwise {n k : ℕ} {spans : List Span} (h : InOrder n k spans) :
    spans.Pairwise fun a b => a.stop ≤ b.start := by
  induction h with
  | nil le => exact List.Pairwise.nil
  | cons start tail ih =>
      exact List.Pairwise.cons (fun other hother => (tail.mem.2 other hother).1) ih

/-- Spans in order follow one another from any earlier position, too. -/
theorem InOrder.mono {n k j : ℕ} {spans : List Span} (h : InOrder n k spans) (hjk : j ≤ k) :
    InOrder n j spans := by
  cases h with
  | nil le => exact .nil (Nat.le_trans hjk le)
  | cons start tail => exact .cons (Nat.le_trans hjk start) tail

/-- Spans that follow one another, behind others that do, are in order with them. -/
theorem InOrder.append {n m k : ℕ} {spans spans' : List Span} (h : InOrder m k spans)
    (h' : InOrder n m spans') : InOrder n k (spans ++ spans') := by
  induction h with
  | nil le => exact h'.mono le
  | cons start tail ih => exact .cons start ih

/-! ### Occurrences -/

/-- An element at an occurrence is that of the pattern. -/
theorem OccursAt.getElem?_add {pat s : List α} {k i : ℕ} (h : OccursAt pat s k)
    (hi : i < pat.length) : s[k + i]? = pat[i]? := by
  obtain ⟨t, ht⟩ := h
  rw [← List.getElem?_drop, ← ht, List.getElem?_append_left hi]

/-- An occurrence lies inside the list. -/
theorem OccursAt.le {pat s : List α} {k : ℕ} (h : OccursAt pat s k) (hpat : pat ≠ []) :
    k + pat.length ≤ s.length := by
  have hlen : pat.length ≤ (s.drop k).length := h.length_le
  have hpos : 0 < pat.length := List.length_pos_iff.mpr hpat
  rw [List.length_drop] at hlen
  omega

/-- The occurrences in a prefix are those that lie in it. -/
theorem occursAt_take {pat s : List α} {m k : ℕ} (hpat : pat ≠ []) :
    OccursAt pat (s.take m) k ↔ OccursAt pat s k ∧ k + pat.length ≤ m := by
  have hpos : 0 < pat.length := List.length_pos_iff.mpr hpat
  rw [OccursAt, List.drop_take, List.prefix_take_iff]
  constructor
  · rintro ⟨h, hle⟩
    exact ⟨h, by omega⟩
  · rintro ⟨h, hle⟩
    exact ⟨h, by omega⟩

/-- The occurrences in a suffix are those that start in it. -/
theorem occursAt_drop {pat s : List α} {m k : ℕ} :
    OccursAt pat (s.drop m) k ↔ OccursAt pat s (m + k) := by
  unfold OccursAt
  rw [List.drop_drop]

/-! ### The search -/

section

variable [DecidableEq α]

/-- What `find` finds is the first occurrence. -/
theorem find_eq_some_iff {pat s : List α} {k : ℕ} :
    find pat s = some k ↔ OccursAt pat s k ∧ k ≤ s.length ∧ ∀ j < k, ¬OccursAt pat s j := by
  induction s generalizing k with
  | nil =>
      cases pat with
      | nil =>
          simp only [find, List.isEmpty_nil, if_true, Option.some.injEq, List.length_nil,
            Nat.le_zero]
          constructor
          · rintro rfl
            exact ⟨List.nil_prefix, rfl, fun j hj => absurd hj (Nat.not_lt_zero j)⟩
          · exact fun h => h.2.1.symm
      | cons b pat => simp [find, OccursAt]
  | cons a s ih =>
      have hzero : OccursAt pat (a :: s) 0 ↔ pat.isPrefixOf (a :: s) = true :=
        List.isPrefixOf_iff_prefix.symm
      have hsucc : ∀ j, OccursAt pat (a :: s) (j + 1) ↔ OccursAt pat s j := fun j => Iff.rfl
      rw [find]
      by_cases hp : pat.isPrefixOf (a :: s) = true
      · rw [if_pos hp, Option.some.injEq]
        constructor
        · rintro rfl
          exact ⟨hzero.mpr hp, Nat.zero_le _, fun j hj => absurd hj (Nat.not_lt_zero j)⟩
        · rintro ⟨-, -, hfirst⟩
          by_contra hne
          exact hfirst 0 (by omega) (hzero.mpr hp)
      · rw [if_neg hp, Option.map_eq_some_iff]
        constructor
        · rintro ⟨j, hj, rfl⟩
          obtain ⟨hocc, hle, hfirst⟩ := ih.mp hj
          refine ⟨(hsucc j).mpr hocc, Nat.succ_le_succ hle, fun i hi => ?_⟩
          cases i with
          | zero => exact fun h => hp (hzero.mp h)
          | succ i => exact fun h => hfirst i (by omega) ((hsucc i).mp h)
        · rintro ⟨hocc, hle, hfirst⟩
          cases k with
          | zero => exact absurd (hzero.mp hocc) hp
          | succ k =>
              refine ⟨k, ih.mpr ⟨(hsucc k).mp hocc, Nat.le_of_succ_le_succ hle, fun j hj h => ?_⟩,
                rfl⟩
              exact hfirst (j + 1) (by omega) ((hsucc j).mpr h)

/-- What `find` finds is an occurrence. -/
theorem occursAt_of_find {pat s : List α} {k : ℕ} (h : find pat s = some k) :
    OccursAt pat s k := (find_eq_some_iff.mp h).1

/-- `find` finds nothing when the pattern does not occur. -/
theorem find_eq_none_iff {pat s : List α} : find pat s = none ↔ ∀ k, ¬OccursAt pat s k := by
  induction s with
  | nil =>
      cases pat with
      | nil =>
          simp only [find, List.isEmpty_nil, if_true, reduceCtorEq, false_iff]
          exact fun h => h 0 List.nil_prefix
      | cons b pat => simp [find, OccursAt]
  | cons a s ih =>
      have hzero : OccursAt pat (a :: s) 0 ↔ pat.isPrefixOf (a :: s) = true :=
        List.isPrefixOf_iff_prefix.symm
      rw [find]
      by_cases hp : pat.isPrefixOf (a :: s) = true
      · rw [if_pos hp]
        exact iff_of_false (by simp) fun h => h 0 (hzero.mpr hp)
      · rw [if_neg hp, Option.map_eq_none_iff, ih]
        constructor
        · intro h k
          cases k with
          | zero => exact fun h => hp (hzero.mp h)
          | succ k => exact h k
        · exact fun h k => h (k + 1)

/-- A pattern that is longer than the list is not found. -/
theorem find_eq_none_of_length {pat s : List α} (h : s.length < pat.length) :
    find pat s = none := by
  refine find_eq_none_iff.mpr fun k hk => ?_
  have hpat : pat ≠ [] := by
    rintro rfl
    exact Nat.not_lt_zero _ h
  have hle := hk.le hpat
  omega

/-- **The search in a slice** that starts at or before the first occurrence finds that one, if the
slice holds it. -/
theorem find_slice {pat s : List α} {p k m : ℕ} (hpat : pat ≠ []) (h : find pat s = some p)
    (hk : k ≤ p) :
    find pat (slice s k m) = if p + pat.length ≤ m then some (p - k) else none := by
  rw [slice]
  obtain ⟨hocc, -, hfirst⟩ := find_eq_some_iff.mp h
  have hle : p + pat.length ≤ s.length := hocc.le hpat
  split
  · rename_i hm
    refine find_eq_some_iff.mpr ⟨?_, ?_, fun j hj h => ?_⟩
    · rw [occursAt_drop, occursAt_take hpat, Nat.add_sub_cancel' hk]
      exact ⟨hocc, hm⟩
    · rw [List.length_drop, List.length_take]
      omega
    · rw [occursAt_drop, occursAt_take hpat] at h
      exact hfirst (k + j) (by omega) h.1
  · rename_i hm
    refine find_eq_none_iff.mpr fun j h => ?_
    rw [occursAt_drop, occursAt_take hpat] at h
    obtain ⟨hj, hjm⟩ := h
    exact hfirst (k + j) (by omega) hj

/-- A pattern is found in a prefix where it is found in the list, if the prefix holds it. -/
theorem find_take {pat s : List α} {p m : ℕ} (hpat : pat ≠ []) (h : find pat s = some p) :
    find pat (s.take m) = if p + pat.length ≤ m then some p else none := by
  have hslice := find_slice (m := m) hpat h (Nat.zero_le p)
  rwa [slice_zero, Nat.sub_zero] at hslice

/-- **A found occurrence stays the first** when the list is continued. -/
theorem find_append_of_eq_some {pat s : List α} {k : ℕ} (t : List α)
    (h : find pat s = some k) : find pat (s ++ t) = some k := by
  obtain ⟨hocc, hk, hfirst⟩ := find_eq_some_iff.mp h
  refine find_eq_some_iff.mpr ⟨?_, ?_, fun j hj hj' => ?_⟩
  · rw [OccursAt, List.drop_append_of_le_length hk]
    exact hocc.trans (List.prefix_append _ _)
  · rw [List.length_append]
    omega
  · by_cases hpat : pat = []
    · subst hpat
      exact hfirst j hj List.nil_prefix
    · have hle : k + pat.length ≤ s.length := hocc.le hpat
      refine hfirst j hj ?_
      have htake : OccursAt pat ((s ++ t).take s.length) j :=
        (occursAt_take hpat).mpr ⟨hj', by omega⟩
      rwa [List.take_left] at htake

/-! ### The first other element -/

/-- The position of the first element that is not `a`. -/
def findNot (a : α) (s : List α) : Option ℕ := s.findIdx? fun b => decide (b ≠ a)

/-- The element that was found is in the list. -/
theorem findNot_lt {a : α} {s : List α} {k : ℕ} (h : findNot a s = some k) : k < s.length :=
  (List.findIdx?_eq_some_iff_getElem.mp h).1

/-- The first other element stays the first when the list is continued. -/
theorem findNot_append_of_eq_some {a : α} {s : List α} {k : ℕ} (t : List α)
    (h : findNot a s = some k) : findNot a (s ++ t) = some k := by
  unfold findNot at h ⊢
  rw [List.findIdx?_append, h]
  rfl

/-- **The first other element**: what stands before it is a repetition. -/
theorem findNot_eq_some_iff {a : α} {s : List α} {k : ℕ} :
    findNot a s = some k ↔ ∃ b t, s = List.replicate k a ++ b :: t ∧ b ≠ a := by
  induction s generalizing k with
  | nil => simp [findNot]
  | cons c s ih =>
      have hcons : findNot a (c :: s) = if c ≠ a then some 0 else (findNot a s).map (· + 1) := by
        simp [findNot, List.findIdx?_cons]
      rw [hcons]
      by_cases hc : c = a
      · rw [if_neg (not_not.mpr hc), Option.map_eq_some_iff]
        constructor
        · rintro ⟨j, hj, rfl⟩
          obtain ⟨b, t, rfl, hb⟩ := ih.mp hj
          exact ⟨b, t, by rw [hc, List.replicate_succ, List.cons_append], hb⟩
        · rintro ⟨b, t, hs, hb⟩
          cases k with
          | zero =>
              obtain ⟨rfl, -⟩ := List.cons.inj hs
              exact absurd hc hb
          | succ k =>
              rw [List.replicate_succ, List.cons_append] at hs
              exact ⟨k, ih.mpr ⟨b, t, (List.cons.inj hs).2, hb⟩, rfl⟩
      · rw [if_pos hc, Option.some.injEq]
        constructor
        · rintro rfl
          exact ⟨c, s, rfl, hc⟩
        · rintro ⟨b, t, hs, -⟩
          cases k with
          | zero => rfl
          | succ k =>
              rw [List.replicate_succ, List.cons_append] at hs
              exact absurd (List.cons.inj hs).1 hc

/-! ### What a search says about the list -/

/-- **A found pattern splits the list.** -/
theorem eq_of_find {pat s : List α} {k : ℕ} (h : find pat s = some k) :
    s = s.take k ++ pat ++ s.drop (k + pat.length) := by
  obtain ⟨t, ht⟩ := occursAt_of_find h
  have hrest : s.drop (k + pat.length) = t := by
    rw [← List.drop_drop, ← ht, List.drop_left]
  rw [hrest, List.append_assoc, ht, List.take_append_drop]

/-- One element is not found if and only if it is not in the list. -/
theorem find_singleton_eq_none_iff {c : α} {s : List α} : find [c] s = none ↔ c ∉ s := by
  rw [find_eq_none_iff]
  constructor
  · intro h hc
    obtain ⟨l, t, rfl⟩ := List.append_of_mem hc
    refine h l.length ?_
    rw [OccursAt, List.drop_left]
    exact ⟨t, rfl⟩
  · rintro h k ⟨t, ht⟩
    refine h (List.mem_of_mem_drop (i := k) ?_)
    rw [← ht]
    exact List.mem_cons_self

/-- **One element is found** where it stands first. -/
theorem find_singleton_eq_some_iff {c : α} {s : List α} {k : ℕ} :
    find [c] s = some k ↔ ∃ l t, s = l ++ c :: t ∧ c ∉ l ∧ l.length = k := by
  constructor
  · intro h
    have hk : k ≤ s.length := (find_eq_some_iff.mp h).2.1
    refine ⟨s.take k, s.drop (k + 1), ?_, ?_, by rw [List.length_take, Nat.min_eq_left hk]⟩
    · have hsplit := eq_of_find h
      rwa [List.append_assoc] at hsplit
    · rw [← find_singleton_eq_none_iff]
      have htake := find_take (m := k) (List.cons_ne_nil c []) h
      rwa [if_neg (by simp)] at htake
  · rintro ⟨l, t, rfl, hc, rfl⟩
    refine find_eq_some_iff.mpr ⟨?_, ?_, ?_⟩
    · rw [OccursAt, List.drop_left]
      exact ⟨t, rfl⟩
    · rw [List.length_append]
      omega
    · rintro j hj ⟨t', ht'⟩
      have hget : (l ++ c :: t)[j]? = some c := by
        have hj' := congrArg (·[0]?) ht'
        simpa using hj'.symm
      rw [List.getElem?_append_left hj] at hget
      exact hc (List.mem_of_getElem? hget)

/-! ### Patterns at the end -/

/-- A pattern that occurs at the end only is found there. -/
theorem find_of_onlyAtEnd {pat s : List α} (h : OnlyAtEnd pat s) :
    find pat s = some (s.length - pat.length) := by
  obtain ⟨hsuffix, honly⟩ := h
  have hle : pat.length ≤ s.length := hsuffix.length_le
  refine find_eq_some_iff.mpr ⟨?_, Nat.sub_le _ _, fun j hj hocc => ?_⟩
  · rw [OccursAt, ← List.suffix_iff_eq_drop.mp hsuffix]
  · have hend := honly j hocc
    omega

/-- A pattern whose first occurrence is at the end occurs there only. -/
theorem onlyAtEnd_of_find {pat s : List α} {k : ℕ} (hpat : pat ≠ [])
    (h : find pat s = some k) (hend : k + pat.length = s.length) : OnlyAtEnd pat s := by
  obtain ⟨hocc, -, hfirst⟩ := find_eq_some_iff.mp h
  refine ⟨?_, fun j hj => ?_⟩
  · have hdrop : pat = s.drop k := hocc.eq_of_length (by rw [List.length_drop]; omega)
    rw [hdrop]
    exact List.drop_suffix k s
  · have hle : j + pat.length ≤ s.length := hj.le hpat
    have hge : ¬j < k := fun hlt => hfirst j hlt hj
    omega

end

end Search
