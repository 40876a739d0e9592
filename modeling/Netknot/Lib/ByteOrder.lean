import Mathlib.Algebra.Group.Nat.Defs
import Mathlib.Tactic.Common

/-!
# Byte Order

A number of `w` bytes in memory, on a machine of either byte order: `store` gives the bytes
and `load` reads them back. Both are defined from the little-endian encoding; the big-endian
one is its reversal. `hton` is the conversion between the order of the host and the order of
the network, which is big-endian.

## Main results

* `load_store`, `store_load`: the two directions of the round trip.
* `store_hton`: after `hton` the bytes in memory are in network order, on every host.
* `ofLittle_reverse_eq_iff`: reversing the bytes changes every number but the symmetric ones.
* `hton_eq_self_iff`: when the conversion changes nothing.
-/

namespace ByteOrder

/-- The order of the bytes of a number in memory. -/
inductive Endian
  /-- Least significant byte first. -/
  | little
  /-- Most significant byte first. -/
  | big
  deriving DecidableEq, Repr

/-- The number with these bytes, least significant first. -/
def ofLittle : List UInt8 → ℕ
  | [] => 0
  | b :: bs => b.toNat + 256 * ofLittle bs

/-- The `w` bytes of a number, least significant first. -/
def toLittle : ℕ → ℕ → List UInt8
  | 0, _ => []
  | w + 1, n => UInt8.ofNat (n % 256) :: toLittle w (n / 256)

/-- Reading a number from memory. -/
def load (e : Endian) (bytes : List UInt8) : ℕ :=
  match e with
  | .little => ofLittle bytes
  | .big => ofLittle bytes.reverse

/-- Writing the `w` bytes of a number to memory. -/
def store (e : Endian) (w n : ℕ) : List UInt8 :=
  match e with
  | .little => toLittle w n
  | .big => (toLittle w n).reverse

@[simp] theorem length_toLittle (w n : ℕ) : (toLittle w n).length = w := by
  induction w generalizing n with
  | zero => rfl
  | succ w ih => rw [toLittle, List.length_cons, ih]

@[simp] theorem length_store (e : Endian) (w n : ℕ) : (store e w n).length = w := by
  cases e with
  | little => exact length_toLittle w n
  | big => rw [store, List.length_reverse, length_toLittle]

/-- A list of bytes is a number below the power of its length. -/
theorem ofLittle_lt (bytes : List UInt8) : ofLittle bytes < 256 ^ bytes.length := by
  induction bytes with
  | nil => exact Nat.one_pos
  | cons b bs ih =>
      have hb : b.toNat < 256 := b.toNat_lt
      rw [ofLittle, List.length_cons, pow_succ]
      omega

/-- **The bytes of a number** are the number again, as far as they reach. -/
theorem ofLittle_toLittle (w n : ℕ) : ofLittle (toLittle w n) = n % 256 ^ w := by
  induction w generalizing n with
  | zero => rw [pow_zero, Nat.mod_one]; rfl
  | succ w ih =>
      have hdigit : (UInt8.ofNat (n % 256)).toNat = n % 256 := by
        rw [UInt8.toNat_ofNat']
        omega
      rw [toLittle, ofLittle, ih, hdigit, pow_succ', Nat.mod_mul]

/-- **The number of some bytes** has these bytes. -/
theorem toLittle_ofLittle (bytes : List UInt8) :
    toLittle bytes.length (ofLittle bytes) = bytes := by
  induction bytes with
  | nil => rfl
  | cons b bs ih =>
      have hb : b.toNat < 256 := b.toNat_lt
      have hlow : (b.toNat + 256 * ofLittle bs) % 256 = b.toNat := by omega
      have hhigh : (b.toNat + 256 * ofLittle bs) / 256 = ofLittle bs := by omega
      rw [List.length_cons, toLittle, ofLittle, hlow, hhigh, ih, UInt8.ofNat_toNat]

/-- A number is written byte by byte: the rest is shifted, the next byte fills the gap. -/
theorem ofLittle_cons_eq_or (b : UInt8) (bs : List UInt8) :
    ofLittle (b :: bs) = ofLittle bs <<< 8 ||| b.toNat := by
  rw [← Nat.shiftLeft_add_eq_or_of_lt b.toNat_lt, Nat.shiftLeft_eq, ofLittle]
  omega

/-- **What was written is read**, on a machine of either order. -/
theorem load_store (e : Endian) {w n : ℕ} (h : n < 256 ^ w) : load e (store e w n) = n := by
  have hlittle : ofLittle (toLittle w n) = n := by rw [ofLittle_toLittle, Nat.mod_eq_of_lt h]
  cases e with
  | little => exact hlittle
  | big => rw [store, load, List.reverse_reverse, hlittle]

/-- **What was read is written** as it was. -/
theorem store_load (e : Endian) (bytes : List UInt8) :
    store e bytes.length (load e bytes) = bytes := by
  cases e with
  | little => exact toLittle_ofLittle bytes
  | big =>
      have hreverse := toLittle_ofLittle bytes.reverse
      rw [List.length_reverse] at hreverse
      rw [store, load, hreverse, List.reverse_reverse]

/-- What is read is in the range of the bytes. -/
theorem load_lt (e : Endian) (bytes : List UInt8) : load e bytes < 256 ^ bytes.length := by
  cases e with
  | little => exact ofLittle_lt bytes
  | big =>
      have hlt := ofLittle_lt bytes.reverse
      rwa [List.length_reverse] at hlt

/-- A number **symmetric** in its `w` bytes: they are the same from both ends. -/
def Symmetric (w n : ℕ) : Prop := (toLittle w n).reverse = toLittle w n

instance (w n : ℕ) : Decidable (Symmetric w n) := inferInstanceAs (Decidable (_ = _))

/-- Reversing the bytes gives the same number if and only if it is symmetric. -/
theorem ofLittle_reverse_eq_iff {w n : ℕ} (h : n < 256 ^ w) :
    ofLittle (toLittle w n).reverse = n ↔ Symmetric w n := by
  have hreverse : toLittle w (ofLittle (toLittle w n).reverse) = (toLittle w n).reverse := by
    have hround := toLittle_ofLittle (toLittle w n).reverse
    rwa [List.length_reverse, length_toLittle] at hround
  constructor
  · intro heq
    rw [Symmetric, ← hreverse, heq]
  · intro hsymm
    rw [hsymm, ofLittle_toLittle, Nat.mod_eq_of_lt h]

/-! ### Network order -/

/-- `htons`, `htonl` for `w` bytes: the number whose bytes in the memory of the host are the
bytes of `n` in network order. -/
def hton (host : Endian) (w n : ℕ) : ℕ := load host (store .big w n)

/-- The result has `w` bytes. -/
theorem hton_lt (host : Endian) (w n : ℕ) : hton host w n < 256 ^ w := by
  have hlt := load_lt host (store .big w n)
  rwa [length_store] at hlt

/-- A number that was converted is **in network order in memory**, whatever the order of
the host. -/
theorem store_hton (host : Endian) (w n : ℕ) : store host w (hton host w n) = store .big w n := by
  have hstore := store_load host (store .big w n)
  rwa [length_store] at hstore

/-- On a big-endian host there is nothing to convert. -/
theorem hton_big {w n : ℕ} (h : n < 256 ^ w) : hton .big w n = n := load_store .big h

/-- **When the conversion changes nothing**: the host has network order, or the number
is symmetric. -/
theorem hton_eq_self_iff {host : Endian} {w n : ℕ} (h : n < 256 ^ w) :
    hton host w n = n ↔ host = .big ∨ Symmetric w n := by
  cases host with
  | big => exact iff_of_true (hton_big h) (.inl rfl)
  | little =>
      have hsymm : hton .little w n = n ↔ Symmetric w n := ofLittle_reverse_eq_iff h
      rw [hsymm]
      constructor
      · intro heq
        exact .inr heq
      · rintro (hhost | heq)
        · cases hhost
        · exact heq

end ByteOrder
