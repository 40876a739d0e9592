import Mathlib.Data.Set.Insert
import Mathlib.Logic.Function.Basic

/-!
# Exclusive Ownership

A set of resources that are in use, and for each possible owner the resource it holds.
Ownership is **exclusive** when every resource in use is held by exactly one owner, and
nothing is held that is not in use. Acquiring a resource that is not in use and giving back
the resource one holds keep it so; a resource taken into use that nobody holds breaks it.

Ownership of a single resource is **linear** when it has exactly one owner, or has been given
back exactly once. It may pass from one owner to another, as long as the other one does not
hold it already.

## Main results

* `Exclusive.acquire`, `Exclusive.release`: the two operations of an owner.
* `Exclusive.held_unique`: no resource has two owners.
* `Exclusive.not_leak`: a resource in use without an owner.
* `Linear.move_iff`: passing on what one holds keeps the ownership of a resource linear, unless
  the receiver held it.
* `Linear.not_take`: a resource is not taken twice.
-/

namespace Ownership

/-- Every resource in use has exactly one owner, and every resource held is in use. -/
structure Exclusive {R O : Type*} (used : Set R) (owns : O → Option R) : Prop where
  owned : ∀ r ∈ used, ∃! o, owns o = some r
  used : ∀ o r, owns o = some r → r ∈ used

variable {R O : Type*} {used : Set R} {owns : O → Option R}

/-- Ownership is exclusive where nothing is in use and nothing held. -/
theorem exclusive_empty : Exclusive (∅ : Set R) fun _ : O => none where
  owned := fun _ hr => absurd hr (Set.notMem_empty _)
  used := fun _ _ h => by cases h

/-- No resource has two owners. -/
theorem Exclusive.held_unique (h : Exclusive used owns) {o o' : O} {r : R}
    (ho : owns o = some r) (ho' : owns o' = some r) : o = o' :=
  (h.owned r (h.used o r ho)).unique ho ho'

/-- The owner of a resource stays the only one when another party changes what it holds, to
something else. -/
theorem existsUnique_update [DecidableEq O] {o : O} {r : R} {held : Option R}
    (h : ∃! o, owns o = some r) (ho : owns o ≠ some r) (hheld : held ≠ some r) :
    ∃! o', Function.update owns o held o' = some r := by
  obtain ⟨o', ho', hunique⟩ := h
  have hne : o' ≠ o := by
    rintro rfl
    exact ho ho'
  refine ⟨o', (Function.update_of_ne hne _ _).trans ho', fun o'' ho'' => ?_⟩
  by_cases heq : o'' = o
  · subst heq
    exact absurd ((Function.update_self _ _ _).symm.trans ho'') hheld
  · exact hunique o'' ((Function.update_of_ne heq _ _).symm.trans ho'')

/-- An owner without a resource **acquires** one that is not in use. -/
theorem Exclusive.acquire [DecidableEq O] (h : Exclusive used owns) {o : O} {r : R}
    (hr : r ∉ used) (ho : owns o = none) :
    Exclusive (insert r used) (Function.update owns o (some r)) := by
  constructor
  · rintro r' (rfl | hr')
    · refine ⟨o, Function.update_self _ _ _, fun o' ho' => ?_⟩
      by_contra hne
      dsimp only at ho'
      rw [Function.update_of_ne hne] at ho'
      exact hr (h.used o' r' ho')
    · refine existsUnique_update (h.owned r' hr') (by simp [ho]) fun heq => ?_
      obtain rfl := Option.some.inj heq
      exact hr hr'
  · intro o' r' ho'
    by_cases heq : o' = o
    · subst heq
      rw [Function.update_self] at ho'
      obtain rfl := Option.some.inj ho'
      exact Set.mem_insert _ _
    · rw [Function.update_of_ne heq] at ho'
      exact Set.mem_insert_of_mem _ (h.used o' r' ho')

/-- An owner **gives back** the resource it holds. -/
theorem Exclusive.release [DecidableEq O] (h : Exclusive used owns) {o : O} {r : R}
    (ho : owns o = some r) : Exclusive (used \ {r}) (Function.update owns o none) := by
  constructor
  · rintro r' ⟨hr', hne⟩
    refine existsUnique_update (h.owned r' hr') (fun heq => ?_) (Option.some_ne_none _).symm
    exact hne (Option.some.inj (ho.symm.trans heq)).symm
  · intro o' r' ho'
    by_cases heq : o' = o
    · subst heq
      rw [Function.update_self] at ho'
      cases ho'
    · rw [Function.update_of_ne heq] at ho'
      refine ⟨h.used o' r' ho', ?_⟩
      rintro rfl
      exact heq (h.held_unique ho' ho)

/-- A resource taken into use that **nobody holds** breaks exclusive ownership. -/
theorem Exclusive.not_leak (h : Exclusive used owns) {r : R} (hr : r ∉ used) :
    ¬Exclusive (insert r used) owns := by
  intro hleak
  obtain ⟨o, ho, -⟩ := hleak.owned r (Set.mem_insert r used)
  exact hr (h.used o r ho)

/-! ### Linear ownership -/

/-- **Linear ownership** of a resource: it has one owner, or has been given back once. -/
def Linear (owns : O → Option R) (freed : R → ℕ) (r : R) : Prop :=
  (∃! o, owns o = some r) ∧ freed r = 0 ∨ (∀ o, owns o ≠ some r) ∧ freed r = 1

/-- An owner passes on what it holds: `o` gets it from `o'`. -/
def move [DecidableEq O] (owns : O → Option R) (o o' : O) : O → Option R :=
  Function.update (Function.update owns o (owns o')) o' none

variable {freed : R → ℕ} {r : R} {o o' : O}

/-- What nobody holds nobody holds after a party has changed to something else. -/
theorem update_ne [DecidableEq O] {held : Option R} (h : ∀ o, owns o ≠ some r)
    (hheld : held ≠ some r) (o' : O) : Function.update owns o held o' ≠ some r := by
  by_cases heq : o' = o
  · subst heq
    rwa [Function.update_self]
  · rw [Function.update_of_ne heq]
    exact h o'

/-- A resource is not concerned by another one. -/
theorem Linear.update [DecidableEq O] {held : Option R} (h : Linear owns freed r)
    (ho : owns o ≠ some r) (hheld : held ≠ some r) :
    Linear (Function.update owns o held) freed r := by
  rcases h with ⟨hone, hfreed⟩ | ⟨hnone, hfreed⟩
  · exact .inl ⟨existsUnique_update hone ho hheld, hfreed⟩
  · exact .inr ⟨update_ne hnone hheld, hfreed⟩

/-- A resource that nobody had is **taken**. -/
theorem linear_take [DecidableEq O] (hnone : ∀ o, owns o ≠ some r) (hfreed : freed r = 0) :
    Linear (Function.update owns o (some r)) freed r := by
  refine .inl ⟨⟨o, Function.update_self _ _ _, fun o' ho' => ?_⟩, hfreed⟩
  by_contra hne
  dsimp only at ho'
  rw [Function.update_of_ne hne] at ho'
  exact hnone o' ho'

/-- A resource that has been taken cannot be taken **twice**. -/
theorem Linear.not_take [DecidableEq O] (h : Linear owns freed r) (ho : owns o ≠ some r) :
    ¬Linear (Function.update owns o (some r)) freed r := by
  have hself : Function.update owns o (some r) o = some r := Function.update_self _ _ _
  rintro (⟨hone, hfreed⟩ | ⟨hnone, -⟩)
  · rcases h with ⟨⟨o', ho', -⟩, -⟩ | ⟨-, hfreed'⟩
    · have hne : o' ≠ o := by
        rintro rfl
        exact ho ho'
      exact hne (hone.unique ((Function.update_of_ne hne _ _).trans ho') hself)
    · rw [hfreed] at hfreed'
      exact absurd hfreed' Nat.zero_ne_one
  · exact hnone o hself

/-- The owner is the only one. -/
theorem Linear.unique (h : Linear owns freed r) (ho : owns o = some r) (ho' : owns o' = some r) :
    o = o' := by
  rcases h with ⟨hone, -⟩ | ⟨hnone, -⟩
  · exact hone.unique ho ho'
  · exact absurd ho (hnone o)

/-- What is owned has not been given back. -/
theorem Linear.freed_eq_zero (h : Linear owns freed r) (ho : owns o = some r) : freed r = 0 := by
  rcases h with ⟨-, hfreed⟩ | ⟨hnone, -⟩
  · exact hfreed
  · exact absurd ho (hnone o)

/-- When the owner lets go, nobody holds the resource. -/
theorem Linear.update_owner_ne [DecidableEq O] {held : Option R} (h : Linear owns freed r)
    (ho : owns o = some r) (hheld : held ≠ some r) (o' : O) :
    Function.update owns o held o' ≠ some r := by
  by_cases heq : o' = o
  · subst heq
    rwa [Function.update_self]
  · rw [Function.update_of_ne heq]
    exact fun ho' => heq (h.unique ho' ho)

/-- The owner **gives the resource back**. -/
theorem Linear.free [DecidableEq O] [DecidableEq R] (h : Linear owns freed r)
    (ho : owns o = some r) :
    Linear (Function.update owns o none) (Function.update freed r (freed r + 1)) r := by
  refine .inr ⟨h.update_owner_ne ho (Option.some_ne_none r).symm, ?_⟩
  rw [Function.update_self, h.freed_eq_zero ho]

/-- A resource that nobody holds and that was not given back is **lost**. -/
theorem not_linear_of_lost (hnone : ∀ o, owns o ≠ some r) (hfreed : freed r = 0) :
    ¬Linear owns freed r := by
  rintro (⟨⟨o, ho, -⟩, -⟩ | ⟨-, hfreed'⟩)
  · exact hnone o ho
  · rw [hfreed] at hfreed'
    exact absurd hfreed' Nat.zero_ne_one

/-- **Passing on** keeps the ownership of a resource linear if and only if the receiver did not
hold it: what it held is held by nobody any more, also when an owner passes on to itself. -/
theorem Linear.move_iff [DecidableEq O] (h : Linear owns freed r) (o o' : O) :
    Linear (move owns o o') freed r ↔ owns o ≠ some r := by
  constructor
  · intro hmove ho
    refine not_linear_of_lost (fun o'' => ?_) (h.freed_eq_zero ho) hmove
    rw [move]
    by_cases heq : o' = o
    · subst heq
      rw [Function.update_idem]
      exact h.update_owner_ne ho (Option.some_ne_none r).symm o''
    · have ho' : owns o' ≠ some r := fun ho' => heq (h.unique ho' ho)
      exact update_ne (h.update_owner_ne ho ho') (Option.some_ne_none r).symm o''
  · intro ho
    by_cases ho' : owns o' = some r
    · have hne : o ≠ o' := by
        rintro rfl
        exact ho ho'
      rw [move, Function.update_comm hne, ho']
      exact linear_take (h.update_owner_ne ho' (Option.some_ne_none r).symm)
        (h.freed_eq_zero ho')
    · rw [move]
      refine (h.update ho ho').update ?_ (Option.some_ne_none r).symm
      by_cases heq : o' = o
      · subst heq
        rwa [Function.update_self]
      · rwa [Function.update_of_ne heq]

end Ownership
