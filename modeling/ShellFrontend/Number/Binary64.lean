/-! # Binary64 numbers

A number is a sign and the 63 low bits of its 64-bit word, read as one natural number.
Below `infinite` the magnitudes enumerate the finite values in increasing order;
`infinite` itself is infinity and everything above it is not a number.
-/

set_option autoImplicit false

namespace ShellFrontend

structure Binary64 where
  negative : Bool
  magnitude : Nat
  magnitude_lt : magnitude < 1 <<< 63
  deriving DecidableEq

namespace Binary64

def infinite : Nat := 2047 <<< 52

def isFinite (x : Binary64) : Bool := x.magnitude < infinite

def isNaN (x : Binary64) : Bool := infinite < x.magnitude

def ofBits (word : UInt64) : Binary64 :=
  ⟨1 <<< 63 ≤ word.toNat, word.toNat % (1 <<< 63), Nat.mod_lt _ (by decide)⟩

def toBits (x : Binary64) : UInt64 :=
  UInt64.ofNat ((if x.negative then 1 <<< 63 else 0) + x.magnitude)

theorem ofBits_toBits (x : Binary64) : ofBits x.toBits = x := by
  obtain ⟨negative, magnitude, h⟩ := x
  cases negative
  · have hword : (UInt64.ofNat magnitude).toNat = magnitude := by
      simp only [UInt64.toNat_ofNat', Nat.reduceShiftLeft] at h ⊢; omega
    simp only [ofBits, toBits, Bool.false_eq_true, if_false, Nat.zero_add, hword, mk.injEq,
      decide_eq_false_iff_not]
    simp only [Nat.reduceShiftLeft] at h ⊢
    omega
  · have hword : (UInt64.ofNat (1 <<< 63 + magnitude)).toNat = 1 <<< 63 + magnitude := by
      simp only [UInt64.toNat_ofNat', Nat.reduceShiftLeft] at h ⊢; omega
    simp only [ofBits, toBits, if_true, hword, mk.injEq, decide_eq_true_eq]
    simp only [Nat.reduceShiftLeft] at h ⊢
    omega

/-- The same number: a NaN is no number, and both zeros are one. -/
def same (x y : Binary64) : Bool :=
  !x.isNaN && !y.isNaN && x.magnitude = y.magnitude &&
    (x.negative = y.negative || x.magnitude = 0)

/-- The value of a finite magnitude in units of the least positive one, `2 ^ (-1074)`. -/
def units (magnitude : Nat) : Nat :=
  if magnitude < 1 <<< 52 then magnitude
  else (1 <<< 52 + magnitude % (1 <<< 52)) <<< (magnitude / (1 <<< 52) - 1)

end Binary64

end ShellFrontend
