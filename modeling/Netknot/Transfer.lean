import Netknot.Lib.Narrowing
import Netknot.Win32.Outcome

/-!
# Synchronous Transfers

`read` and `write` of both backends give the operating system a length that is cut to an
`int` first. On Windows `recv` and `send` take an `int`; on Unix they take a `size_t`, so the
`int` is widened again, with its sign. The result is an `int` on both, although the one of
Unix is an `ssize_t`.

The operating system is a function of the length it is given. What the program relies on is
`Lawful`: it transfers at most that length, nothing for a zero length, and nothing for a
positive one only at the end of the stream.

`w` is the number of bits of a `size_t`, 32 or 64.

## Main results

* `passedLength_of_lt`, `passedLength_win32_of_ge`, `passedLength_unix_of_ge`: the length that
  is passed, by bit 31 of the size.
* `sizesSurvive_iff`: the sizes that survive the conversions.
-/

namespace Netknot

open Narrowing

/-- The outcome of `recv` or `send`. -/
inductive OsOutcome
  /-- It fails with this code. -/
  | error (code : ℕ)
  /-- It transfers so many bytes; `ended` says that the stream is at its end. -/
  | transferred (n : ℕ) (ended : Bool)
  deriving DecidableEq, Repr

/-- The two synchronous transfers. -/
inductive Direction
  | read
  | write
  deriving DecidableEq, Repr

variable {w : ℕ}

/-- `(int)size`, as the parameter of `recv` and `send` takes it. -/
def passedLength (backend : Backend) (size : BitVec w) : ℤ :=
  match backend with
  | .win32 => toSigned 32 size.toNat
  | .unix => toUnsigned w (toSigned 32 size.toNat)

/-- What `recv` and `send` return on Unix, an `ssize_t`. -/
def OsOutcome.ssize : OsOutcome → ℤ
  | .error _ => -1
  | .transferred n _ => n

/-- What `recv` and `send` give on Windows: the code of `WSAGetLastError` behind
`SOCKET_ERROR`, or the `int` that is converted to a `size_t`. -/
def OsOutcome.answer (w : ℕ) : OsOutcome → Except ℕ ℕ
  | .error code => .error code
  | .transferred n _ => .ok (toUnsigned w (toSigned 32 n))

section

variable (os : ℤ → OsOutcome) (allocated : Bool) (size : BitVec w)

/-- The body of `UnixSocket::read` and `UnixSocket::write`; `none` is `std::terminate`. -/
def unixTransfer : Option (Win32.Returned ℕ) :=
  let result := toSigned 32 (os (passedLength .unix size)).ssize
  if result < 0 then none else some ⟨none, some (toUnsigned w result)⟩

/-- `UnixSocket::read`, with `recv`. -/
def UnixSocket.read : Option (Win32.Returned ℕ) := unixTransfer os size

/-- `UnixSocket::write`, with `send`. -/
def UnixSocket.write : Option (Win32.Returned ℕ) := unixTransfer os size

/-- `Win32Socket::read`, with `recv`. -/
def Win32Socket.read : Option (Win32.Returned ℕ) :=
  Win32.SyncCall.read ((os (passedLength .win32 size)).answer w) allocated

/-- `Win32Socket::write`, with `send`. -/
def Win32Socket.write : Option (Win32.Returned ℕ) :=
  Win32.SyncCall.write ((os (passedLength .win32 size)).answer w) allocated

/-- `Socket::read` and `Socket::write`. -/
def Socket.transfer (backend : Backend) (direction : Direction) : Option (Win32.Returned ℕ) :=
  match backend, direction with
  | .unix, .read => UnixSocket.read os size
  | .unix, .write => UnixSocket.write os size
  | .win32, .read => Win32Socket.read os allocated size
  | .win32, .write => Win32Socket.write os allocated size

end

/-- The bound on the results of `recv` and `send`, which are signed. -/
def resultBound (backend : Backend) (w : ℕ) : ℕ :=
  match backend with
  | .win32 => 2 ^ 31
  | .unix => 2 ^ (w - 1)

theorem resultBound_win32 (w : ℕ) : resultBound .win32 w = 2 ^ 31 := rfl

theorem resultBound_unix (w : ℕ) : resultBound .unix w = 2 ^ (w - 1) := rfl

/-- **What the program relies on** of `recv` and `send`. -/
structure Lawful (bound : ℕ) (os : ℤ → OsOutcome) : Prop where
  atMost : ∀ length n ended, os length = .transferred n ended → (n : ℤ) ≤ length ∧ n < bound
  zero : ∃ ended, os 0 = .transferred 0 ended
  stream : ∀ length ended, 0 < length → os length = .transferred 0 ended → ended = true

/-- **A size survives the conversions**: the length that is passed is at most the size, and
positive when the size is; the size that is reported is at most the size, and a read reports
zero for a positive size at the end of the stream only. -/
def SizesSurvive (backend : Backend) (direction : Direction) (size : BitVec w) : Prop :=
  (passedLength backend size ≤ size.toNat ∧ (0 < size.toNat → 0 < passedLength backend size)) ∧
    ∀ os allocated r szOut, Lawful (resultBound backend w) os →
      Socket.transfer os allocated size backend direction = some r → r.out = some szOut →
        szOut ≤ size.toNat ∧ (direction = .read → szOut = 0 → 0 < size.toNat →
          ∃ n, os (passedLength backend size) = .transferred n true)

/-! ### The length that is passed -/

/-- The low bits of a size are an `int` as they are when bit 31 is clear. -/
theorem toSigned_size_of_lt {size : ℕ} (h : size % 2 ^ 32 < 2 ^ 31) :
    toSigned 32 size = (size % 2 ^ 32 : ℕ) := by
  rw [toSigned_of_lt (k := 31) (by omega)]
  omega

/-- The low bits of a size are a negative `int` when bit 31 is set. -/
theorem toSigned_size_of_ge {size : ℕ} (h : 2 ^ 31 ≤ size % 2 ^ 32) :
    toSigned 32 size = (size % 2 ^ 32 : ℕ) - 2 ^ 32 := by
  rw [toSigned_of_ge (k := 31) (by omega)]
  omega

/-- An `int` that is not negative stays the same as a `size_t`. -/
theorem toUnsigned_int (hw : w = 32 ∨ w = 64) {n : ℕ} (h : n < 2 ^ 31) :
    (toUnsigned w (n : ℤ) : ℤ) = n := by
  refine toUnsigned_of_nonneg (by omega) ?_
  rcases hw with rfl | rfl
  · omega
  · omega

/-- **Bit 31 is clear**: both backends pass the low bits of the size. -/
theorem passedLength_of_lt (hw : w = 32 ∨ w = 64) {size : BitVec w} (backend : Backend)
    (h : size.toNat % 2 ^ 32 < 2 ^ 31) :
    passedLength backend size = (size.toNat % 2 ^ 32 : ℕ) := by
  have hsigned := toSigned_size_of_lt h
  cases backend with
  | win32 => exact hsigned
  | unix =>
      change (toUnsigned w (toSigned 32 size.toNat) : ℤ) = _
      rw [hsigned]
      exact toUnsigned_int hw h

/-- **Bit 31 is set**: Windows is passed a negative length. -/
theorem passedLength_win32_of_ge {size : BitVec w} (h : 2 ^ 31 ≤ size.toNat % 2 ^ 32) :
    passedLength .win32 size = (size.toNat % 2 ^ 32 : ℕ) - 2 ^ 32 :=
  toSigned_size_of_ge h

/-- **Bit 31 is set**: Unix is passed a length with all the high bits set. -/
theorem passedLength_unix_of_ge (hw : w = 32 ∨ w = 64) {size : BitVec w}
    (h : 2 ^ 31 ≤ size.toNat % 2 ^ 32) :
    passedLength .unix size = 2 ^ w + ((size.toNat % 2 ^ 32 : ℕ) - 2 ^ 32) := by
  have hsigned := toSigned_size_of_ge h
  change (toUnsigned w (toSigned 32 size.toNat) : ℤ) = _
  rw [hsigned]
  refine toUnsigned_of_neg (by omega) ?_
  rcases hw with rfl | rfl
  · omega
  · omega

/-! ### What is reported -/

/-- A transfer on Unix reports the low bits of what was transferred. -/
theorem unixTransfer_out {os : ℤ → OsOutcome} {size : BitVec w} {r : Win32.Returned ℕ}
    {szOut : ℕ} (hw : w = 32 ∨ w = 64) (h : unixTransfer os size = some r)
    (hout : r.out = some szOut) :
    ∃ n ended, os (passedLength .unix size) = .transferred n ended ∧
      n % 2 ^ 32 < 2 ^ 31 ∧ szOut = n % 2 ^ 32 := by
  rw [unixTransfer] at h
  cases hos : os (passedLength .unix size) with
  | error code =>
      have hneg : toSigned 32 (-1) < 0 := by decide
      rw [hos, OsOutcome.ssize, if_pos hneg] at h
      cases h
  | transferred n ended =>
      rw [hos] at h
      by_cases hneg : toSigned 32 (OsOutcome.transferred n ended).ssize < 0
      · rw [if_pos hneg] at h
        cases h
      · rw [if_neg hneg] at h
        obtain rfl := Option.some.inj h
        obtain rfl := Option.some.inj hout
        rw [OsOutcome.ssize] at hneg ⊢
        have hlt : n % 2 ^ 32 < 2 ^ 31 := by
          by_contra hge
          have hsigned := toSigned_size_of_ge (Nat.not_lt.mp hge)
          omega
        refine ⟨n, ended, rfl, hlt, ?_⟩
        rw [toSigned_size_of_lt hlt]
        exact_mod_cast toUnsigned_int hw hlt

/-- A transfer on Windows reports the `int` that was transferred. -/
theorem win32Transfer_out {os : ℤ → OsOutcome} {allocated : Bool} {size : BitVec w}
    {r : Win32.Returned ℕ} {szOut : ℕ}
    (h : Win32.checked ((os (passedLength .win32 size)).answer w) allocated = some r)
    (hout : r.out = some szOut) :
    ∃ n ended, os (passedLength .win32 size) = .transferred n ended ∧
      szOut = toUnsigned w (toSigned 32 n) := by
  cases hos : os (passedLength .win32 size) with
  | error code =>
      rw [hos, OsOutcome.answer, Win32.checked] at h
      obtain ⟨e, -, rfl⟩ := Option.map_eq_some_iff.mp h
      cases hout
  | transferred n ended =>
      rw [hos, OsOutcome.answer, Win32.checked] at h
      obtain rfl := Option.some.inj h
      exact ⟨n, ended, rfl, (Option.some.inj hout).symm⟩

/-- **What is reported** on either backend: the low bits of what was transferred. -/
theorem transfer_out {os : ℤ → OsOutcome} {allocated : Bool} {size : BitVec w}
    {backend : Backend} {direction : Direction} {r : Win32.Returned ℕ} {szOut : ℕ}
    (hw : w = 32 ∨ w = 64) (hlawful : Lawful (resultBound backend w) os)
    (h : Socket.transfer os allocated size backend direction = some r)
    (hout : r.out = some szOut) :
    ∃ n ended, os (passedLength backend size) = .transferred n ended ∧
      szOut = n % 2 ^ 32 := by
  cases backend with
  | unix =>
      have hunix : unixTransfer os size = some r := by
        cases direction with
        | read => exact h
        | write => exact h
      obtain ⟨n, ended, hos, -, hsz⟩ := unixTransfer_out hw hunix hout
      exact ⟨n, ended, hos, hsz⟩
  | win32 =>
      have hchecked : Win32.checked ((os (passedLength .win32 size)).answer w) allocated =
          some r := by
        cases direction with
        | read => exact h
        | write => exact h
      obtain ⟨n, ended, hos, hsz⟩ := win32Transfer_out hchecked hout
      have hn := (hlawful.atMost _ n ended hos).2
      rw [resultBound_win32] at hn
      refine ⟨n, ended, hos, ?_⟩
      have hunsigned : (toUnsigned w (toSigned 32 n) : ℤ) = n := by
        rw [toSigned_eq_self (k := 31) (by omega) (by omega)]
        exact toUnsigned_int hw hn
      omega

/-! ### The sizes that survive -/

/-- An operating system that transfers `2 ^ 32` bytes whenever it may. -/
def transferAll (length : ℤ) : OsOutcome :=
  if length = 0 then .transferred 0 false
  else if 2 ^ 32 ≤ length then .transferred (2 ^ 32) false
  else .error 0

/-- A kernel that transfers all is lawful where an `ssize_t` has 64 bits. -/
theorem lawful_transferAll : Lawful (resultBound .unix 64) transferAll := by
  constructor
  · intro length n ended h
    rw [transferAll] at h
    by_cases hzero : length = 0
    · rw [if_pos hzero] at h
      cases h
      exact ⟨by omega, by decide⟩
    · rw [if_neg hzero] at h
      by_cases hlarge : (2 : ℤ) ^ 32 ≤ length
      · rw [if_pos hlarge] at h
        cases h
        exact ⟨by exact_mod_cast hlarge, by decide⟩
      · rw [if_neg hlarge] at h
        cases h
  · exact ⟨false, rfl⟩
  · intro length ended hpos h
    rw [transferAll, if_neg (by omega)] at h
    by_cases hlarge : (2 : ℤ) ^ 32 ≤ length
    · rw [if_pos hlarge] at h
      cases h
    · rw [if_neg hlarge] at h
      cases h

/-- The sizes whose low bits are a positive `int`, and the sizes that are large enough for
Unix to get them back from the sign. -/
def SizeOk (backend : Backend) (direction : Direction) (size : BitVec w) : Prop :=
  size.toNat = 0 ∨ (0 < size.toNat % 2 ^ 32 ∧ size.toNat % 2 ^ 32 < 2 ^ 31) ∨
    (backend = .unix ∧ 2 ^ w - 2 ^ 31 ≤ size.toNat ∧ (direction = .write ∨ w = 32))

/-- A size survives if its low bits are an `int`, and positive when the size is. -/
theorem sizesSurvive_of_low (hw : w = 32 ∨ w = 64) {backend : Backend} {direction : Direction}
    {size : BitVec w} (hlow : size.toNat % 2 ^ 32 < 2 ^ 31)
    (hpos : 0 < size.toNat → 0 < size.toNat % 2 ^ 32) :
    SizesSurvive backend direction size := by
  have hpassed := passedLength_of_lt hw backend hlow
  refine ⟨⟨by omega, fun h => by have := hpos h; omega⟩, ?_⟩
  intro os allocated r szOut hlawful hcall hout
  obtain ⟨n, ended, hos, rfl⟩ := transfer_out hw hlawful hcall hout
  have hn := (hlawful.atMost _ n ended hos).1
  refine ⟨by omega, fun _ hzero hsize => ⟨n, ?_⟩⟩
  obtain rfl : n = 0 := by omega
  have hended := hlawful.stream _ ended (by have := hpos hsize; omega) hos
  rw [hos, hended]

/-- A size that Unix gets back from the sign is passed as it is. -/
theorem passedLength_unix_of_large (hw : w = 32 ∨ w = 64) {size : BitVec w}
    (hlarge : 2 ^ w - 2 ^ 31 ≤ size.toNat) : passedLength .unix size = size.toNat := by
  have hsize : size.toNat < 2 ^ w := size.isLt
  rw [passedLength_unix_of_ge hw (by rcases hw with rfl | rfl <;> omega)]
  rcases hw with rfl | rfl
  · omega
  · omega

/-- **A large size on Unix** survives where the result fits: in a write, and where an
`ssize_t` is an `int`. -/
theorem sizesSurvive_of_large (hw : w = 32 ∨ w = 64) {direction : Direction} {size : BitVec w}
    (hlarge : 2 ^ w - 2 ^ 31 ≤ size.toNat) (hfits : direction = .write ∨ w = 32) :
    SizesSurvive .unix direction size := by
  have hpassed := passedLength_unix_of_large hw hlarge
  refine ⟨⟨by omega, fun h => by omega⟩, ?_⟩
  intro os allocated r szOut hlawful hcall hout
  obtain ⟨n, ended, hos, rfl⟩ := transfer_out hw hlawful hcall hout
  obtain ⟨hn, hbound⟩ := hlawful.atMost _ n ended hos
  refine ⟨by omega, fun hread hzero hsize => ⟨n, ?_⟩⟩
  rcases hfits with hwrite | rfl
  · rw [hread] at hwrite
    cases hwrite
  · rw [resultBound_unix] at hbound
    obtain rfl : n = 0 := by omega
    have hended := hlawful.stream _ ended (by omega) hos
    rw [hos, hended]

/-- **A large size in a read** where an `ssize_t` is wider than an `int`: of `2 ^ 32` bytes
none is reported. -/
theorem not_sizesSurvive_of_large {size : BitVec 64}
    (hlarge : 2 ^ 64 - 2 ^ 31 ≤ size.toNat) : ¬ SizesSurvive .unix .read size := by
  rintro ⟨-, hreport⟩
  have hpassed := passedLength_unix_of_large (.inr rfl) hlarge
  have hos : transferAll (passedLength .unix size) = .transferred (2 ^ 32) false := by
    rw [hpassed, transferAll, if_neg (by omega), if_pos (by omega)]
  have hcall : Socket.transfer transferAll true size .unix .read = some ⟨none, some 0⟩ := by
    change unixTransfer transferAll size = _
    rw [unixTransfer, hos]
    rfl
  obtain ⟨-, hstream⟩ := hreport transferAll true _ 0 lawful_transferAll hcall rfl
  obtain ⟨n, hended⟩ := hstream rfl rfl (by omega)
  rw [hos] at hended
  cases hended

/-- **The sizes that survive** are zero, those whose low bits are a positive `int`, and on Unix
those from `2 ^ w - 2 ^ 31` on, unless an `ssize_t` is wider than the `int` that takes the result
of a read. -/
theorem sizesSurvive_iff (hw : w = 32 ∨ w = 64) (backend : Backend) (direction : Direction)
    (size : BitVec w) :
    SizesSurvive backend direction size ↔ SizeOk backend direction size := by
  have hsize : size.toNat < 2 ^ w := size.isLt
  constructor
  · intro h
    obtain ⟨⟨hle, hpos⟩, -⟩ := id h
    rw [SizeOk]
    by_cases hlow : size.toNat % 2 ^ 32 < 2 ^ 31
    · rw [passedLength_of_lt hw backend hlow] at hpos
      omega
    · cases backend with
      | win32 =>
          rw [passedLength_win32_of_ge (Nat.not_lt.mp hlow)] at hpos
          omega
      | unix =>
          have hlarge : 2 ^ w - 2 ^ 31 ≤ size.toNat := by
            rw [passedLength_unix_of_ge hw (Nat.not_lt.mp hlow)] at hle
            rcases hw with rfl | rfl
            · omega
            · omega
          refine .inr (.inr ⟨rfl, hlarge, ?_⟩)
          rcases hw with rfl | rfl
          · exact .inr rfl
          · cases direction with
            | read => exact absurd h (not_sizesSurvive_of_large hlarge)
            | write => exact .inl rfl
  · rintro (hzero | ⟨hpos, hlow⟩ | ⟨rfl, hlarge, hfits⟩)
    · exact sizesSurvive_of_low hw (by omega) (by omega)
    · exact sizesSurvive_of_low hw hlow fun _ => hpos
    · exact sizesSurvive_of_large hw hlarge hfits

/-- The size of a read of 4096 bytes survives on Unix. -/
theorem sizesSurvive_page : SizesSurvive .unix .read (4096 : BitVec 64) :=
  (sizesSurvive_iff (.inr rfl) .unix .read 4096).mpr (.inr (.inl ⟨by decide, by decide⟩))

/-- The size of a read of `2 ^ 32` bytes does not survive on Unix: `recv` is asked for none. -/
theorem not_sizesSurvive_four_gib : ¬ SizesSurvive .unix .read (4294967296 : BitVec 64) := by
  rintro ⟨⟨-, hpos⟩, -⟩
  exact absurd (hpos (by decide)) (by decide)

end Netknot
