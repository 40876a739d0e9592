import Mathlib.Algebra.BigOperators.Group.Finset.Basic
import Mathlib.Algebra.Order.BigOperators.Group.Finset
import Netknot.Lib.Machine

/-!
# Rankings of a Machine

How far a machine can go before it gets somewhere. A `Ranking` gives each state a number that
no step raises and that the steps of interest lower; it need only do so as long as a step
condition `G` is met, which says that the machine is not there yet. So there are no more steps
of interest than the rank of the first state, whatever the other steps are and however many
of them there are.

## Main results

* `Ranking.countP_le`: the steps of interest in an executed list of labels.
* `Ranking.exists_goal`: when a step of interest is possible until a goal is reached, these
  steps alone reach it.
* `Ranking.exists_not_of_fair`: an infinite run with infinitely many of these steps leaves the
  step condition.
* `sum_add_le_of_ne`, `untilLast`: what ranks of several threads and of a queue are made of.
-/

namespace Machine

variable {σ ℓ : Type*} {M : Machine σ ℓ} {G : σ → ℓ → Prop} {own : ℓ → Prop}

/-- **A ranking** of the states for the labels in `own`, under the step condition `G`. -/
structure Ranking (M : Machine σ ℓ) (G : σ → ℓ → Prop) (own : ℓ → Prop) where
  /-- What the ranked states have in common. -/
  holds : σ → Prop
  rank : σ → ℕ
  holds_step : ∀ {s l t}, holds s → G s l → M.step s l = some t → holds t
  rank_lt : ∀ {s l t}, holds s → G s l → M.step s l = some t → own l → rank t < rank s
  rank_le : ∀ {s l t}, holds s → G s l → M.step s l = some t → ¬own l → rank t ≤ rank s

namespace Ranking

variable (r : Ranking M G own)

/-- No step raises the rank. -/
theorem rank_le_of_step {s t : σ} {l : ℓ} (hs : r.holds s) (hG : G s l)
    (hstep : M.step s l = some t) : r.rank t ≤ r.rank s := by
  by_cases hl : own l
  · exact Nat.le_of_lt (r.rank_lt hs hG hstep hl)
  · exact r.rank_le hs hG hstep hl

/-- **A bound on the steps of interest**, in any order with the others. -/
theorem countP_le [∀ s l, Decidable (G s l)] [DecidablePred own] {s t : σ} {ls : List ℓ}
    (h : M.execWhere G s ls = some t) (hs : r.holds s) :
    ls.countP (own ·) + r.rank t ≤ r.rank s := by
  induction ls generalizing s with
  | nil =>
      obtain rfl : s = t := by simpa [execWhere] using h
      rw [List.countP_nil, Nat.zero_add]
  | cons l ls ih =>
      rw [execWhere] at h
      split at h
      · rename_i hG
        obtain ⟨u, hstep, hrest⟩ := Option.bind_eq_some_iff.mp h
        have hle := ih hrest (r.holds_step hs hG hstep)
        by_cases hl : own l
        · have hlt := r.rank_lt hs hG hstep hl
          have hcount : (l :: ls).countP (own ·) = ls.countP (own ·) + 1 :=
            List.countP_cons_of_pos (by simpa using hl)
          omega
        · have hle' := r.rank_le hs hG hstep hl
          have hcount : (l :: ls).countP (own ·) = ls.countP (own ·) :=
            List.countP_cons_of_neg (by simpa using hl)
          omega
      · cases h

/-- What the ranked states have in common holds in a whole run. -/
theorem holds_of_run {s t : σ} (hs : r.holds s) (h : M.RunWhere G s t) : r.holds t :=
  h.invariant hs fun _ _ _ ht hG hstep => r.holds_step ht hG hstep

/-- **The steps of interest alone**, or some of them, reach a goal up to which one of these is
always possible. -/
theorem exists_goal {chosen : ℓ → Prop} (hchosen : ∀ l, chosen l → own l) {goal : σ → Prop}
    (henabled : ∀ s, r.holds s → ¬goal s → ∃ l t, chosen l ∧ G s l ∧ M.step s l = some t) {s : σ}
    (hs : r.holds s) : ∃ t, M.RunWhere (fun s l => chosen l ∧ G s l) s t ∧ goal t := by
  induction hrank : r.rank s using Nat.strong_induction_on generalizing s with
  | _ k ih =>
      by_cases hgoal : goal s
      · exact ⟨s, .refl, hgoal⟩
      · obtain ⟨l, u, hl, hG, hstep⟩ := henabled s hs hgoal
        have hlt := r.rank_lt hs hG hstep (hchosen l hl)
        obtain ⟨t, hrun, ht⟩ := ih _ (hrank ▸ hlt) (r.holds_step hs hG hstep) rfl
        exact ⟨t, (RunWhere.single ⟨hl, hG⟩ hstep).trans hrun, ht⟩

/-- **A fair infinite run** does not meet the step condition for ever. -/
theorem exists_not_of_fair {states : ℕ → σ} {labels : ℕ → ℓ}
    (hsteps : ∀ k, M.step (states k) (labels k) = some (states (k + 1)))
    (hs : r.holds (states 0)) (hfair : ∀ k, ∃ m, k ≤ m ∧ own (labels m)) :
    ∃ k, ¬G (states k) (labels k) := by
  by_contra hall
  have hG : ∀ k, G (states k) (labels k) := fun k => not_not.mp (not_exists.mp hall k)
  have hholds : ∀ k, r.holds (states k) := by
    intro k
    induction k with
    | zero => exact hs
    | succ k ih => exact r.holds_step ih (hG k) (hsteps k)
  have hle : ∀ k j, r.rank (states (k + j)) ≤ r.rank (states k) := by
    intro k j
    induction j with
    | zero => exact Nat.le_refl _
    | succ j ih => exact (r.rank_le_of_step (hholds _) (hG _) (hsteps _)).trans ih
  -- by induction on the rank: fairness lowers it once more from every position
  have hnone : ∀ n k, r.rank (states k) ≠ n := by
    intro n
    induction n using Nat.strong_induction_on with
    | _ n ih =>
        intro k hk
        obtain ⟨m, hm, hown⟩ := hfair k
        obtain ⟨j, rfl⟩ := Nat.exists_eq_add_of_le hm
        have hlt := r.rank_lt (hholds _) (hG _) (hsteps _) hown
        exact ih _ (Nat.lt_of_lt_of_le hlt (hk ▸ hle k j)) _ rfl
  exact hnone _ 0 rfl

end Ranking

/-! ### What ranks are made of -/

/-- **A sum of which no term but one grows** grows by that term at most. -/
theorem sum_add_le_of_ne {ι : Type*} [Fintype ι] [DecidableEq ι] {f g : ι → ℕ} (i : ι)
    (h : ∀ j, j ≠ i → g j ≤ f j) : ∑ j, g j + f i ≤ ∑ j, f j + g i := by
  have hf := Finset.add_sum_erase Finset.univ f (Finset.mem_univ i)
  have hg := Finset.add_sum_erase Finset.univ g (Finset.mem_univ i)
  have hle : ∑ j ∈ Finset.univ.erase i, g j ≤ ∑ j ∈ Finset.univ.erase i, f j :=
    Finset.sum_le_sum fun j hj => h j (Finset.ne_of_mem_erase hj)
  omega

/-- **How many elements** leave a queue until the last one that `p` accepts has left. -/
def untilLast {α : Type*} (p : α → Bool) : List α → ℕ
  | [] => 0
  | a :: q => if (a :: q).any p then untilLast p q + 1 else 0

section Queue

variable {α : Type*} {p : α → Bool} {a : α} {q : List α}

/-- As long as there is one to come, the head counts. -/
theorem untilLast_cons (h : (a :: q).any p = true) :
    untilLast p (a :: q) = untilLast p q + 1 := by
  rw [untilLast, if_pos h]

/-- There are as many as the queue has at most. -/
theorem untilLast_le_length (p : α → Bool) (q : List α) : untilLast p q ≤ q.length := by
  induction q with
  | nil => exact Nat.le_refl 0
  | cons a q ih =>
      rw [untilLast]
      split
      · exact Nat.succ_le_succ ih
      · exact Nat.zero_le _

/-- There are none behind the last one. -/
theorem untilLast_of_not_any (h : q.any p = false) : untilLast p q = 0 := by
  cases q with
  | nil => rfl
  | cons a q => rw [untilLast, h, if_neg Bool.false_ne_true]

/-- Taking the head makes it no later. -/
theorem untilLast_le_cons : untilLast p q ≤ untilLast p (a :: q) := by
  cases hany : (a :: q).any p with
  | true =>
      rw [untilLast_cons hany]
      exact Nat.le_succ _
  | false =>
      have htail : q.any p = false := (Bool.or_eq_false_iff.mp hany).2
      rw [untilLast_of_not_any htail]
      exact Nat.zero_le _

/-- It is as far to the last element that passes as there are elements in front of it, and
one more. -/
theorem untilLast_append_cons (ha : p a = true) (hq : q.any p = false) (q' : List α) :
    untilLast p (q' ++ a :: q) = q'.length + 1 := by
  induction q' with
  | nil =>
      rw [List.nil_append, untilLast_cons (by simp [ha]), untilLast_of_not_any hq]
      rfl
  | cons b q' ih =>
      rw [List.cons_append, untilLast_cons (by simp [ha]), ih, List.length_cons]

/-- **First in, first out**: what is appended does not come before. -/
theorem untilLast_append (ha : p a = false) : untilLast p (q ++ [a]) = untilLast p q := by
  induction q with
  | nil => exact untilLast_of_not_any (by simp [ha])
  | cons b q ih =>
      have hany : ((b :: q) ++ [a]).any p = (b :: q).any p := by simp [ha]
      rw [List.cons_append, untilLast, untilLast, ← List.cons_append, hany, ih]

end Queue

end Machine
