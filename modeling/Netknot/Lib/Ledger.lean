import Mathlib.Logic.Function.Basic
import Mathlib.Tactic.Common

/-!
# Allocators and Their Ledgers

The blocks that are live, each with the allocator it came from, its size and its alignment. The
**ledger** of an allocator is what it knows of them: it checks a release against the entry it
made when it handed the block out. A release names an allocator, or none, a size and an
alignment; it succeeds if and only if these are the block's.

Holders of blocks are **accounted** for when each block that is held is live as its holder
knows it, and no two holders share one.

## Main results

* `release_eq_ok_iff`: the releases that succeed.
* `Accounted.alloc`, `Accounted.release`: a holder takes a new block, and gives its block back.
-/

namespace Ledger

/-- A block, as it was allocated. -/
structure Block (A : Type*) where
  allocator : A
  size : ℕ
  alignment : ℕ
  deriving DecidableEq, Repr

/-- A block, as a release names it; without an allocator when the pointer to it is null. -/
structure Named (A : Type*) where
  allocator : Option A
  size : ℕ
  alignment : ℕ
  deriving DecidableEq, Repr

/-- What a ledger finds wrong with a release. -/
inductive Fault
  | nullAllocator
  /-- The block is not in the ledger of the allocator. -/
  | notRecorded
  | size
  | alignment
  deriving DecidableEq, Repr

/-- The live blocks, by address. -/
abbrev Blocks (A P : Type*) := P → Option (Block A)

variable {A P O : Type*}

/-- The name a block is to be released by. -/
def Block.name (b : Block A) : Named A := ⟨some b.allocator, b.size, b.alignment⟩

/-- A block is handed out. -/
def alloc [DecidableEq P] (blocks : Blocks A P) (p : P) (b : Block A) : Blocks A P :=
  Function.update blocks p (some b)

section

variable [DecidableEq A]

/-- The entry at `p` in the ledger of allocator `a`. -/
def record (blocks : Blocks A P) (a : A) (p : P) : Option (Block A) :=
  (blocks p).filter (·.allocator = a)

/-- The entries of a ledger are the live blocks of its allocator. -/
theorem record_eq_some_iff {blocks : Blocks A P} {a : A} {p : P} {b : Block A} :
    record blocks a p = some b ↔ blocks p = some b ∧ b.allocator = a := by
  rw [record, Option.filter_eq_some_iff, decide_eq_true_iff]

variable [DecidableEq P]

/-- A block is released: its allocator looks the entry up, checks it and erases it. -/
def release (blocks : Blocks A P) (p : P) (n : Named A) : Except Fault (Blocks A P) :=
  match n.allocator with
  | none => .error .nullAllocator
  | some a =>
      match record blocks a p with
      | none => .error .notRecorded
      | some entry =>
          if entry.size ≠ n.size then .error .size
          else if entry.alignment ≠ n.alignment then .error .alignment
          else .ok (Function.update blocks p none)

/-- **The releases that succeed** name the block as it was allocated. -/
theorem release_eq_ok_iff {blocks blocks' : Blocks A P} {p : P} {n : Named A} :
    release blocks p n = .ok blocks' ↔
      ∃ b, blocks p = some b ∧ n = b.name ∧ blocks' = Function.update blocks p none := by
  constructor
  · intro h
    obtain ⟨allocator, size, alignment⟩ := n
    cases allocator with
    | none => cases h
    | some a =>
        cases hrecord : record blocks a p with
        | none => simp [release, hrecord] at h
        | some entry =>
            obtain ⟨hlive, rfl⟩ := record_eq_some_iff.mp hrecord
            simp only [release, hrecord] at h
            split at h
            · cases h
            · rename_i hsize
              split at h
              · cases h
              · rename_i halignment
                obtain rfl := not_not.mp hsize
                obtain rfl := not_not.mp halignment
                exact ⟨entry, hlive, rfl, (Except.ok.inj h).symm⟩
  · rintro ⟨b, hlive, rfl, rfl⟩
    have hrecord : record blocks b.allocator p = some b := record_eq_some_iff.mpr ⟨hlive, rfl⟩
    simp [release, Block.name, hrecord]

/-- A live block can be released by its name only. -/
theorem release_ok_iff {blocks : Blocks A P} {p : P} {b : Block A} (hlive : blocks p = some b)
    (n : Named A) : (∃ blocks', release blocks p n = .ok blocks') ↔ n = b.name := by
  constructor
  · rintro ⟨blocks', h⟩
    obtain ⟨b', hlive', hname, -⟩ := release_eq_ok_iff.mp h
    rw [hlive] at hlive'
    rwa [Option.some.inj hlive']
  · intro hname
    exact ⟨_, release_eq_ok_iff.mpr ⟨b, hlive, hname, rfl⟩⟩

end

/-! ### Holders -/

/-- Every block that is held is live as its holder knows it, and has one holder. -/
structure Accounted (blocks : Blocks A P) (held : O → Option (P × Block A)) : Prop where
  live : ∀ o p b, held o = some (p, b) → blocks p = some b
  unique : ∀ o o' p b b', held o = some (p, b) → held o' = some (p, b') → o = o'

variable {blocks : Blocks A P} {held : O → Option (P × Block A)} {o : O} {p : P}
  {b : Block A}

/-- A block at a free address is held by nobody. -/
theorem Accounted.ne_of_free (h : Accounted blocks held) (hp : blocks p = none) {o' : O} {p' : P}
    {b' : Block A} (ho' : held o' = some (p', b')) : p' ≠ p := by
  rintro rfl
  have hlive := h.live o' p' b' ho'
  rw [hp] at hlive
  cases hlive

variable [DecidableEq P] [DecidableEq O]

/-- **A holder takes a new block** at a free address. -/
theorem Accounted.alloc (h : Accounted blocks held) (hp : blocks p = none) :
    Accounted (Ledger.alloc blocks p b) (Function.update held o (some (p, b))) := by
  constructor
  · intro o' p' b' ho'
    by_cases heq : o' = o
    · subst heq
      rw [Function.update_self] at ho'
      obtain ⟨rfl, rfl⟩ := Prod.mk.inj (Option.some.inj ho')
      exact Function.update_self _ _ _
    · rw [Function.update_of_ne heq] at ho'
      rw [Ledger.alloc, Function.update_of_ne (h.ne_of_free hp ho')]
      exact h.live o' p' b' ho'
  · intro o₁ o₂ p' b₁ b₂ h₁ h₂
    by_cases heq₁ : o₁ = o
    · by_cases heq₂ : o₂ = o
      · rw [heq₁, heq₂]
      · subst heq₁
        rw [Function.update_self] at h₁
        rw [Function.update_of_ne heq₂] at h₂
        exact absurd (Prod.mk.inj (Option.some.inj h₁)).1.symm (h.ne_of_free hp h₂)
    · rw [Function.update_of_ne heq₁] at h₁
      by_cases heq₂ : o₂ = o
      · subst heq₂
        rw [Function.update_self] at h₂
        exact absurd (Prod.mk.inj (Option.some.inj h₂)).1.symm (h.ne_of_free hp h₁)
      · rw [Function.update_of_ne heq₂] at h₂
        exact h.unique o₁ o₂ p' b₁ b₂ h₁ h₂

/-- **A holder gives its block back.** -/
theorem Accounted.release (h : Accounted blocks held) (ho : held o = some (p, b)) :
    Accounted (Function.update blocks p none) (Function.update held o none) := by
  have hother : ∀ o' p' b', Function.update held o none o' = some (p', b') →
      held o' = some (p', b') ∧ o' ≠ o := by
    intro o' p' b' ho'
    by_cases heq : o' = o
    · subst heq
      rw [Function.update_self] at ho'
      cases ho'
    · rw [Function.update_of_ne heq] at ho'
      exact ⟨ho', heq⟩
  constructor
  · intro o' p' b' ho'
    obtain ⟨ho', hne⟩ := hother o' p' b' ho'
    have hp : p' ≠ p := by
      rintro rfl
      exact hne (h.unique o' o p' b' b ho' ho)
    rw [Function.update_of_ne hp]
    exact h.live o' p' b' ho'
  · intro o₁ o₂ p' b₁ b₂ h₁ h₂
    exact h.unique o₁ o₂ p' b₁ b₂ (hother o₁ p' b₁ h₁).1 (hother o₂ p' b₂ h₂).1

end Ledger
