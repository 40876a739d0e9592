import Mathlib.Algebra.Group.Nat.Defs
import Mathlib.Data.Nat.Basic
import Mathlib.Tactic.Common

/-!
# Buffers and Windows

An `RcBufferRef` names a window of an `RcBuffer`: `size` bytes from `offset` on. The
constructor that takes a window checks it with two comparisons. The sum in the second one is
a `size_t` and wraps around, and both comparisons refuse equality.

`w` is the number of bits of a `size_t`.

## Main results

* `window_isSome_iff`: which windows the constructor accepts.
* `window_exact_iff`: when that is the right answer.
* `window_zero_size`: the window that is the whole buffer is never accepted.
* `isSome_of_wraps`: a window that wraps around is accepted.
-/

namespace Netknot

variable {w : ℕ}

/-- `RcBuffer`: the address of the data, and their size. -/
structure RcBuffer (w : ℕ) where
  data : ℕ
  size : BitVec w
  deriving DecidableEq, Repr

/-- `RcBufferRef`; without a buffer it is the one of the default constructor. -/
structure RcBufferRef (w : ℕ) where
  buffer : Option (RcBuffer w) := none
  offset : BitVec w := 0
  size : BitVec w := 0
  deriving DecidableEq, Repr

namespace RcBufferRef

/-- `RcBufferRef(buffer)`. -/
def whole (buffer : RcBuffer w) : RcBufferRef w :=
  { buffer := some buffer, offset := 0, size := buffer.size }

/-- `RcBufferRef(buffer, offset, size)`; `none` is `std::terminate`. -/
def window (buffer : RcBuffer w) (offset size : BitVec w) : Option (RcBufferRef w) :=
  if offset ≥ buffer.size then none
  else if offset + size ≥ buffer.size then none
  else some { buffer := some buffer, offset := offset, size := size }

/-- The window lies inside the buffer, without a wrap-around. -/
def Fits (buffer : RcBuffer w) (offset size : BitVec w) : Prop :=
  offset.toNat + size.toNat ≤ buffer.size.toNat

instance (buffer : RcBuffer w) (offset size : BitVec w) : Decidable (Fits buffer offset size) :=
  inferInstanceAs (Decidable (_ ≤ _))

/-- **The check is right** for a window: it is accepted if and only if it fits. -/
def CheckExact (buffer : RcBuffer w) (offset size : BitVec w) : Prop :=
  (window buffer offset size).isSome = true ↔ Fits buffer offset size

variable {buffer : RcBuffer w} {offset size : BitVec w}

/-- **Which windows are accepted**: the offset is inside the buffer, and so is the sum as
a `size_t`. -/
theorem window_isSome_iff : (window buffer offset size).isSome = true ↔
    offset.toNat < buffer.size.toNat ∧
      (offset.toNat + size.toNat) % 2 ^ w < buffer.size.toNat := by
  rw [← BitVec.toNat_add, window]
  by_cases hoffset : offset ≥ buffer.size
  · rw [if_pos hoffset]
    refine iff_of_false (by simp) fun h => ?_
    exact absurd h.1 (Nat.not_lt.mpr hoffset)
  · rw [if_neg hoffset]
    by_cases hsum : offset + size ≥ buffer.size
    · rw [if_pos hsum]
      refine iff_of_false (by simp) fun h => ?_
      exact absurd h.2 (Nat.not_lt.mpr hsum)
    · rw [if_neg hsum]
      exact iff_of_true rfl ⟨Nat.not_le.mp hoffset, Nat.not_le.mp hsum⟩

/-- An accepted window has the buffer, the offset and the size that were asked for. -/
theorem eq_of_window {ref : RcBufferRef w} (h : window buffer offset size = some ref) :
    ref = { buffer := some buffer, offset := offset, size := size } := by
  rw [window] at h
  by_cases hoffset : offset ≥ buffer.size
  · rw [if_pos hoffset] at h
    cases h
  · rw [if_neg hoffset] at h
    by_cases hsum : offset + size ≥ buffer.size
    · rw [if_pos hsum] at h
      cases h
    · rw [if_neg hsum] at h
      exact (Option.some.inj h).symm

/-- A sum of two `size_t` that wraps around loses `2 ^ w`, once. -/
theorem sum_mod (offset size : BitVec w) :
    (offset.toNat + size.toNat) % 2 ^ w =
      if offset.toNat + size.toNat < 2 ^ w then offset.toNat + size.toNat
      else offset.toNat + size.toNat - 2 ^ w := by
  have hoffset : offset.toNat < 2 ^ w := offset.isLt
  have hsize : size.toNat < 2 ^ w := size.isLt
  by_cases hlt : offset.toNat + size.toNat < 2 ^ w
  · rw [if_pos hlt, Nat.mod_eq_of_lt hlt]
  · rw [if_neg hlt, Nat.mod_eq_sub_mod (Nat.not_lt.mp hlt), Nat.mod_eq_of_lt (by omega)]

/-- **When the check is exact**: the window does not end where the buffer ends, and its sum
wraps around only where the offset is refused already. -/
theorem window_exact_iff (buffer : RcBuffer w) (offset size : BitVec w) :
    CheckExact buffer offset size ↔
      offset.toNat + size.toNat ≠ buffer.size.toNat ∧
        (offset.toNat + size.toNat < 2 ^ w ∨ buffer.size.toNat ≤ offset.toNat) := by
  have hsize : size.toNat < 2 ^ w := size.isLt
  have hbuffer : buffer.size.toNat < 2 ^ w := buffer.size.isLt
  rw [CheckExact, window_isSome_iff, Fits, sum_mod]
  generalize 2 ^ w = bound at hsize hbuffer ⊢
  by_cases hlt : offset.toNat + size.toNat < bound
  · rw [if_pos hlt]
    omega
  · rw [if_neg hlt]
    omega

/-- **The whole buffer** is the window that `RcBufferRef(buffer)` builds, and no size of the
buffer makes the check accept it. -/
theorem window_zero_size (buffer : RcBuffer w) : window buffer 0 buffer.size = none := by
  rw [← Option.not_isSome_iff_eq_none, window_isSome_iff, sum_mod]
  have hbuffer : buffer.size.toNat < 2 ^ w := buffer.size.isLt
  rw [BitVec.ofNat_eq_ofNat, BitVec.toNat_ofNat, Nat.zero_mod, Nat.zero_add, if_pos hbuffer]
  omega

/-- An accepted window whose sum does not wrap around ends **before** the buffer ends. -/
theorem lt_of_window {ref : RcBufferRef w} (h : window buffer offset size = some ref)
    (hlt : offset.toNat + size.toNat < 2 ^ w) :
    offset.toNat + size.toNat < buffer.size.toNat := by
  obtain ⟨-, hsum⟩ := window_isSome_iff.mp (Option.isSome_iff_exists.mpr ⟨ref, h⟩)
  rwa [Nat.mod_eq_of_lt hlt] at hsum

/-- **A window that wraps around** is accepted from every offset inside the buffer, and does
not fit. -/
theorem isSome_of_wraps (hwraps : 2 ^ w ≤ offset.toNat + size.toNat)
    (hoffset : offset.toNat < buffer.size.toNat) :
    (window buffer offset size).isSome = true ∧ ¬ Fits buffer offset size := by
  have hsize : size.toNat < 2 ^ w := size.isLt
  have hbuffer : buffer.size.toNat < 2 ^ w := buffer.size.isLt
  rw [window_isSome_iff, Fits, sum_mod, if_neg (Nat.not_lt.mpr hwraps)]
  generalize 2 ^ w = bound at hwraps hsize hbuffer ⊢
  omega

/-- The check refuses the window of all 4096 bytes of a buffer. -/
theorem not_checkExact_whole :
    ¬ CheckExact (w := 64) { data := 0, size := 4096 } 0 4096 := by
  rw [window_exact_iff]
  rintro ⟨hne, -⟩
  exact hne (by decide)

end RcBufferRef

end Netknot
