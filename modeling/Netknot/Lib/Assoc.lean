import Mathlib.Data.List.Lookmap
import Mathlib.Tactic.Common

/-!
# Finite Maps as Lists of Entries

A finite map is the list of its entries; `List.lookup` reads it. `modify` changes the value at
a key that is there, `erase` takes the key out, and a new key is appended at the end.

## Main results

* `lookup_append_singleton`: a new key is appended.
* `lookup_modify`: what is read after a value was changed.
* `erase_append_singleton`: taking a new key out again restores the map.
-/

namespace Assoc

variable {κ β : Type*} [BEq κ] [LawfulBEq κ] {l : List (κ × β)} {key k : κ} {value : β}

/-- A key is in the map if it has an entry. -/
theorem lookup_eq_none_iff : l.lookup k = none ↔ ∀ entry ∈ l, entry.1 ≠ k := by
  rw [List.lookup_eq_none_iff]
  constructor
  · intro h entry hentry heq
    have hne := h entry hentry
    rw [heq] at hne
    simp at hne
  · intro h entry hentry
    exact bne_iff_ne.mpr (Ne.symm (h entry hentry))

variable [DecidableEq κ]

/-- The value at a key is changed. -/
def modify (key : κ) (f : β → β) (l : List (κ × β)) : List (κ × β) :=
  l.map fun entry => if entry.1 = key then (entry.1, f entry.2) else entry

/-- A key is taken out. -/
def erase (key : κ) (l : List (κ × β)) : List (κ × β) := l.filter (·.1 ≠ key)

/-- **A new key** is appended. -/
theorem lookup_append_singleton (hnew : l.lookup key = none) :
    (l ++ [(key, value)]).lookup k = if k = key then some value else l.lookup k := by
  rw [List.lookup_append]
  by_cases hk : k = key
  · subst hk
    rw [if_pos rfl, hnew, Option.none_or, List.lookup_cons_self]
  · rw [if_neg hk, List.lookup_cons, beq_false_of_ne hk]
    exact Option.or_none

/-- **A value is changed**, and no other. -/
theorem lookup_modify (f : β → β) :
    (modify key f l).lookup k = if k = key then (l.lookup k).map f else l.lookup k := by
  induction l with
  | nil => simp [modify]
  | cons entry l ih =>
      obtain ⟨k', v⟩ := entry
      rw [modify, List.map_cons, ← modify]
      by_cases hentry : k' = key
      · subst hentry
        rw [if_pos rfl]
        by_cases hk : k = k'
        · subst hk
          simp
        · rw [List.lookup_cons, beq_false_of_ne hk, List.lookup_cons, beq_false_of_ne hk]
          rw [if_neg hk] at ih ⊢
          exact ih
      · rw [if_neg hentry]
        by_cases hk : k = k'
        · subst hk
          rw [List.lookup_cons_self, List.lookup_cons_self, if_neg hentry]
        · rw [List.lookup_cons, beq_false_of_ne hk, List.lookup_cons, beq_false_of_ne hk]
          exact ih

/-- The value at a key that is there is replaced. -/
theorem lookup_modify_const {old : β} (h : l.lookup key = some old) :
    (modify key (fun _ => value) l).lookup k = if k = key then some value else l.lookup k := by
  rw [lookup_modify]
  by_cases hk : k = key
  · rw [if_pos hk, if_pos hk, hk, h, Option.map_some]
  · rw [if_neg hk, if_neg hk]

/-- A key that is not there is not taken out. -/
theorem erase_eq_self (hnew : l.lookup key = none) : erase key l = l := by
  rw [erase, List.filter_eq_self]
  intro entry hentry
  exact decide_eq_true (lookup_eq_none_iff.mp hnew entry hentry)

/-- Taking a **new key** out again restores the map. -/
theorem erase_append_singleton (hnew : l.lookup key = none) :
    erase key (l ++ [(key, value)]) = l := by
  have hkeep : l.filter (·.1 ≠ key) = l := erase_eq_self hnew
  rw [erase, List.filter_append, hkeep]
  simp

end Assoc
