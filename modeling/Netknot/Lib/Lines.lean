import Netknot.Lib.Search

/-!
# Texts with a Terminator

A text `t` that is followed by a terminator `pat` **ends** there when this is the first
occurrence of the terminator in `t ++ pat`. A list can be cut in one way only into a text that
ends and a rest, and a search for the terminator finds the cut, whatever the rest is.

## Main results

* `ends_iff`: no occurrence starts inside the text.
* `Ends.find_append`, `exists_ends_of_find`: cutting is what the search does.
* `Ends.append_inj`: the cut is unique.
* `Ends.cut_append`: the text and the rest are what `cut` returns.
* `Ends.of_append`, `Ends.append`: parts and extensions of a text that ends.
* `replicate_append_inj`: cutting off a repetition is unique as well.
-/

namespace Search

variable {α : Type*} {pat t t' r r' : List α}

/-- Two lists with the same element in front, repeated: what follows is the same when it
starts with another one. -/
theorem replicate_append_inj {a : α} {m n : ℕ} (ht : t.head? ≠ some a) (ht' : t'.head? ≠ some a)
    (heq : List.replicate m a ++ t = List.replicate n a ++ t') : m = n ∧ t = t' := by
  induction m generalizing n with
  | zero =>
      cases n with
      | zero => exact ⟨rfl, heq⟩
      | succ n =>
          rw [List.replicate_zero, List.nil_append] at heq
          exact absurd (by rw [heq]; rfl) ht
  | succ m ih =>
      cases n with
      | zero =>
          rw [List.replicate_zero, List.nil_append] at heq
          exact absurd (by rw [← heq]; rfl) ht'
      | succ n =>
          rw [List.replicate_succ, List.replicate_succ, List.cons_append, List.cons_append] at heq
          obtain ⟨rfl, rfl⟩ := ih (List.cons.inj heq).2
          exact ⟨rfl, rfl⟩

variable [DecidableEq α]

/-- The terminator behind the text is its first occurrence. -/
def Ends (pat t : List α) : Prop := find pat (t ++ pat) = some t.length

instance (pat t : List α) : Decidable (Ends pat t) := inferInstanceAs (Decidable (_ = _))

/-- **No occurrence starts inside** a text that ends. -/
theorem ends_iff : Ends pat t ↔ ∀ j < t.length, ¬OccursAt pat (t ++ pat) j := by
  rw [Ends, find_eq_some_iff]
  constructor
  · rintro ⟨-, -, hfirst⟩
    exact hfirst
  · intro hfirst
    refine ⟨?_, ?_, hfirst⟩
    · rw [OccursAt, List.drop_left]
    · rw [List.length_append]
      omega

/-- **The search finds the end**, whatever follows. -/
theorem Ends.find_append (h : Ends pat t) (r : List α) :
    find pat (t ++ (pat ++ r)) = some t.length := by
  rw [← List.append_assoc]
  exact find_append_of_eq_some r h

/-- **What the search finds is an end.** -/
theorem exists_ends_of_find {s : List α} {k : ℕ} (hpat : pat ≠ []) (h : find pat s = some k) :
    ∃ t r, s = t ++ (pat ++ r) ∧ Ends pat t ∧ t.length = k := by
  have hk : k ≤ s.length := (find_eq_some_iff.mp h).2.1
  have hlen : (s.take k).length = k := by rw [List.length_take, Nat.min_eq_left hk]
  have hsplit := eq_of_find h
  refine ⟨s.take k, s.drop (k + pat.length), ?_, ?_, hlen⟩
  · rwa [List.append_assoc] at hsplit
  · have htake := find_take (m := k + pat.length) hpat h
    rw [if_pos (Nat.le_refl _)] at htake
    have hfront : s.take (k + pat.length) = s.take k ++ pat := by
      have hfront' := congrArg (List.take (k + pat.length)) hsplit
      rwa [List.take_left' (by rw [List.length_append, hlen])] at hfront'
    rw [Ends, ← hfront, htake, hlen]

/-- **The cut is unique.** -/
theorem Ends.append_inj (h : Ends pat t) (h' : Ends pat t')
    (heq : t ++ (pat ++ r) = t' ++ (pat ++ r')) : t = t' ∧ r = r' := by
  have hlen : t.length = t'.length := by
    have hfind := h.find_append r
    rw [heq, h'.find_append r'] at hfind
    exact (Option.some.inj hfind).symm
  obtain ⟨ht, hrest⟩ := List.append_inj heq hlen
  exact ⟨ht, List.append_cancel_left hrest⟩

/-- The text up to the first terminator, and the rest behind it. -/
def cut (pat s : List α) : Option (List α × List α) :=
  (find pat s).map fun k => (s.take k, s.drop (k + pat.length))

/-- A text that ends is **cut off** in front of its terminator. -/
theorem Ends.cut_append (h : Ends pat t) (r : List α) :
    cut pat (t ++ (pat ++ r)) = some (t, r) := by
  have hrest : (t ++ (pat ++ r)).drop (t.length + pat.length) = r := by
    rw [← List.drop_drop, List.drop_left, List.drop_left]
  rw [cut, h.find_append r, Option.map_some, List.take_left, hrest]

/-- The back of a text that ends is a text that ends. -/
theorem Ends.of_append {l : List α} (h : Ends pat (l ++ t)) : Ends pat t := by
  rw [ends_iff] at h ⊢
  intro j hj hocc
  refine h (l.length + j) (by rw [List.length_append]; omega) ?_
  rwa [← occursAt_drop, List.append_assoc, List.drop_left]

/-- An element that does not start the terminator can be put in front. -/
theorem Ends.cons {a b : α} {pat : List α} {t : List α} (h : Ends (a :: pat) t) (hb : b ≠ a) :
    Ends (a :: pat) (b :: t) := by
  rw [ends_iff] at h ⊢
  intro j hj hocc
  cases j with
  | zero =>
      obtain ⟨r, hr⟩ := hocc
      exact hb (List.cons.inj hr).1.symm
  | succ j => exact h j (Nat.lt_of_succ_lt_succ hj) hocc

/-- A text without what starts the terminator can be put in front. -/
theorem Ends.append {a : α} {pat l t : List α} (h : Ends (a :: pat) t) (hl : a ∉ l) :
    Ends (a :: pat) (l ++ t) := by
  induction l with
  | nil => exact h
  | cons b l ih =>
      rw [List.mem_cons, not_or] at hl
      exact (ih hl.2).cons (Ne.symm hl.1)

/-- A text ends if what starts the terminator is not in it. -/
theorem ends_of_notMem {a : α} {pat : List α} {t : List α} (h : a ∉ t) : Ends (a :: pat) t := by
  have hnil : Ends (a :: pat) [] := ends_iff.mpr fun j hj => absurd hj (Nat.not_lt_zero j)
  have happend := hnil.append h
  rwa [List.append_nil] at happend

end Search
