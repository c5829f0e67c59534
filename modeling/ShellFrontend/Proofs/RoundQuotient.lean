import ShellFrontend.Number.Rounding

/-! # Rounding depends on the value alone

Two quotients of one value are rounded alike, and so are two decimals of one value: the
ceilings on exponents and places change nothing. A value that is a magnitude is its own rounding.
-/

set_option autoImplicit false

namespace ShellFrontend

theorem roundHalfEven_mul {k : Nat} (hk : 0 < k) (a b : Nat) :
    roundHalfEven (k * a) (k * b) = roundHalfEven a b := by
  have hlt : 2 * (k * (a % b)) < k * b ↔ 2 * (a % b) < b := by
    rw [Nat.mul_left_comm]
    exact Nat.mul_lt_mul_left hk
  have heq : 2 * (k * (a % b)) = k * b ↔ 2 * (a % b) = b := by
    rw [Nat.mul_left_comm]
    exact Nat.mul_right_inj (Nat.ne_of_gt hk)
  simp only [roundHalfEven, Nat.mul_div_mul_left a b hk, Nat.mul_mod_mul_left, hlt, heq]

theorem roundHalfEven_of_multiple {d : Nat} (hd : 0 < d) (a : Nat) : roundHalfEven (a * d) d = a := by
  simp [roundHalfEven, Nat.mul_div_cancel a hd, hd]

namespace Binary64

theorem roundQuotient_mul {k : Nat} (hk : 0 < k) (a b : Nat) :
    roundQuotient (k * a) (k * b) = roundQuotient a b := by
  simp only [roundQuotient, Nat.mul_div_mul_left a b hk, Nat.shiftLeft_eq, Nat.mul_assoc,
    roundHalfEven_mul hk]

theorem roundQuotient_congr {a b a' b' : Nat} (hb : 0 < b) (hb' : 0 < b') (h : a * b' = a' * b) :
    roundQuotient a b = roundQuotient a' b' := by
  calc roundQuotient a b = roundQuotient (b' * a) (b' * b) := (roundQuotient_mul hb' a b).symm
    _ = roundQuotient (b * a') (b * b') := by
      rw [Nat.mul_comm b' a, h, Nat.mul_comm a' b, Nat.mul_comm b' b]
    _ = roundQuotient a' b' := roundQuotient_mul hb a' b'

theorem roundQuotient_eq_zero {a b : Nat} (h : 2 * a < b) : roundQuotient a b = 0 := by
  have hfloor : a / b = 0 := Nat.div_eq_of_lt (by omega)
  have hmod : a % b = a := Nat.mod_eq_of_lt (by omega)
  simp [roundQuotient, roundHalfEven, hfloor, hmod, h]

theorem roundQuotient_eq_infinite {a : Nat} (h : 2098 ≤ a.log2) : roundQuotient a 1 = infinite := by
  have ha : a ≠ 0 := by
    rintro rfl
    exact absurd h (by decide)
  have hself : a / 1 = a := Nat.div_one a
  have hlow : 2 ^ (a.log2 - 52) * 2 ^ 52 ≤ a := by
    rw [← Nat.pow_add, Nat.sub_add_cancel (by omega)]
    exact Nat.log2_self_le ha
  have hsignificand : 2 ^ 52 ≤ a / 2 ^ (a.log2 - 52) := by
    rw [Nat.le_div_iff_mul_le (Nat.two_pow_pos _), Nat.mul_comm]
    exact hlow
  have hround : 2 ^ 52 ≤ roundHalfEven a (2 ^ (a.log2 - 52)) := by
    unfold roundHalfEven
    dsimp only
    split <;> omega
  have hshift : 2046 ≤ a.log2 - 52 := by omega
  have hinfinite : infinite = 2047 * 2 ^ 52 := by decide
  simp only [roundQuotient, hself, Nat.shiftLeft_eq, Nat.one_mul]
  rw [hinfinite]
  omega

theorem roundQuotient_units {magnitude : Nat} (h : magnitude < infinite) :
    roundQuotient (units magnitude) 1 = magnitude := by
  have hmin : min magnitude infinite = magnitude := Nat.min_eq_left (Nat.le_of_lt h)
  by_cases hsmall : magnitude < 1 <<< 52
  · have hlog : magnitude.log2 - 52 = 0 := by
      by_cases hzero : magnitude = 0
      · simp [hzero]
      · have hlt : magnitude.log2 < 52 := (Nat.log2_lt hzero).2 (by simpa using hsmall)
        omega
    have hround : roundHalfEven magnitude 1 = magnitude := by
      simpa using roundHalfEven_of_multiple Nat.one_pos magnitude
    have hunits : units magnitude = magnitude := if_pos hsmall
    simp only [roundQuotient, hunits, Nat.div_one, hlog, Nat.zero_shiftLeft, Nat.shiftLeft_zero,
      Nat.zero_add, hround, hmin]
  · have hunits : units magnitude = (2 ^ 52 + magnitude % 2 ^ 52) * 2 ^ (magnitude / 2 ^ 52 - 1) := by
      rw [units, if_neg hsmall]
      simp only [Nat.shiftLeft_eq, Nat.one_mul]
    have hfraction : magnitude % 2 ^ 52 < 2 ^ 52 := Nat.mod_lt _ (Nat.two_pow_pos 52)
    have hlog : (units magnitude).log2 = 52 + (magnitude / 2 ^ 52 - 1) := by
      have hpos : 0 < 2 ^ (magnitude / 2 ^ 52 - 1) := Nat.two_pow_pos _
      have hne : units magnitude ≠ 0 := by
        rw [hunits]
        exact Nat.ne_of_gt (Nat.mul_pos (by omega) hpos)
      have hnext : 2 ^ (52 + (magnitude / 2 ^ 52 - 1) + 1) =
          2 ^ 52 * 2 * 2 ^ (magnitude / 2 ^ 52 - 1) := by
        rw [Nat.pow_succ 2 (52 + (magnitude / 2 ^ 52 - 1)), Nat.pow_add, Nat.mul_right_comm]
      rw [Nat.log2_eq_iff hne, hunits, hnext, Nat.pow_add]
      constructor
      · exact Nat.mul_le_mul_right _ (by omega)
      · exact Nat.mul_lt_mul_of_pos_right (by omega) hpos
    have hround := roundHalfEven_of_multiple (Nat.two_pow_pos (magnitude / 2 ^ 52 - 1))
      (2 ^ 52 + magnitude % 2 ^ 52)
    rw [← hunits] at hround
    have hexponent : 1 ≤ magnitude / 2 ^ 52 := by
      simp only [Nat.shiftLeft_eq, Nat.one_mul] at hsmall
      omega
    have hsum : (magnitude / 2 ^ 52 - 1) * 2 ^ 52 + (2 ^ 52 + magnitude % 2 ^ 52) = magnitude := by
      omega
    simp only [roundQuotient, Nat.div_one, hlog, Nat.add_sub_cancel_left, Nat.shiftLeft_eq,
      Nat.one_mul, hround, hsum, hmin]

end Binary64

namespace Decimal

private theorem two_pow_le_ten_pow {k n : Nat} (h : k ≤ 3 * n) : Nat.pow 2 k ≤ Nat.pow 10 n := by
  calc 2 ^ k ≤ 2 ^ (3 * n) := Nat.pow_le_pow_right (by decide) h
    _ = 8 ^ n := Nat.pow_mul 2 3 n
    _ ≤ 10 ^ n := Nat.pow_le_pow_left (by decide) n

private theorem two_mul_shiftLeft_lt (a n : Nat) : 2 * (a <<< n) < Nat.pow 2 (a.log2 + n + 2) := by
  have hpow : 2 ^ (a.log2 + n + 2) = 2 * (2 ^ (a.log2 + 1) * 2 ^ n) := by
    have hexponent : a.log2 + n + 2 = a.log2 + 1 + n + 1 := by omega
    rw [hexponent, Nat.pow_succ 2 (a.log2 + 1 + n), Nat.pow_add 2 (a.log2 + 1) n, Nat.mul_comm]
  calc 2 * (a <<< n) = 2 * (a * 2 ^ n) := by rw [Nat.shiftLeft_eq]
    _ < 2 * (2 ^ (a.log2 + 1) * 2 ^ n) := Nat.mul_lt_mul_of_pos_left
      (Nat.mul_lt_mul_of_pos_right Nat.lt_log2_self (Nat.two_pow_pos n)) Nat.two_pos
    _ = 2 ^ (a.log2 + n + 2) := hpow.symm

private theorem le_log2_shiftLeft {a exponent k : Nat} (ha : 0 < a) (h : k ≤ 3 * exponent) (n : Nat) :
    k + n ≤ ((a * Nat.pow 10 exponent) <<< n).log2 := by
  have hpow : 2 ^ (k + n) ≤ (a * 10 ^ exponent) <<< n := by
    calc 2 ^ (k + n) = 2 ^ k * 2 ^ n := Nat.pow_add 2 k n
      _ ≤ 10 ^ exponent * 2 ^ n := Nat.mul_le_mul_right _ (two_pow_le_ten_pow h)
      _ ≤ a * 10 ^ exponent * 2 ^ n := Nat.mul_le_mul_right _ (Nat.le_mul_of_pos_left _ ha)
      _ = (a * 10 ^ exponent) <<< n := (Nat.shiftLeft_eq _ _).symm
  have hne : (a * 10 ^ exponent) <<< n ≠ 0 :=
    Nat.ne_of_gt (Nat.lt_of_lt_of_le (Nat.two_pow_pos _) hpow)
  exact (Nat.le_log2 hne).2 hpow

/-- The ceiling on places changes no rounding: what it cuts off is too small for any magnitude. -/
theorem roundQuotient_placesCeiling (coefficient places : Nat) :
    Binary64.roundQuotient (coefficient <<< 1074)
        (Nat.pow 10 (min places (placesCeiling coefficient))) =
      Binary64.roundQuotient (coefficient <<< 1074) (Nat.pow 10 places) := by
  by_cases hle : places ≤ placesCeiling coefficient
  · rw [Nat.min_eq_left hle]
  · have hsmall : 2 * (coefficient <<< 1074) < 10 ^ placesCeiling coefficient := by
      refine Nat.lt_of_lt_of_le (two_mul_shiftLeft_lt coefficient 1074) (two_pow_le_ten_pow ?_)
      simp only [placesCeiling]
      omega
    have hmore : 10 ^ placesCeiling coefficient ≤ 10 ^ places :=
      Nat.pow_le_pow_right (by decide) (by omega)
    have hzero := Binary64.roundQuotient_eq_zero hsmall
    rw [Nat.min_eq_right (by omega)]
    exact hzero.trans (Binary64.roundQuotient_eq_zero (Nat.lt_of_lt_of_le hsmall hmore)).symm

/-- The ceiling on exponents changes no rounding: both sides are infinite, unless they are zero. -/
theorem roundQuotient_exponentCeiling (coefficient exponent : Nat) :
    Binary64.roundQuotient ((coefficient * Nat.pow 10 (min exponent exponentCeiling)) <<< 1074) 1 =
      Binary64.roundQuotient ((coefficient * Nat.pow 10 exponent) <<< 1074) 1 := by
  by_cases hle : exponent ≤ exponentCeiling
  · rw [Nat.min_eq_left hle]
  · by_cases hzero : coefficient = 0
    · simp only [hzero, Nat.zero_mul]
    · have hlarge : ∀ e, exponentCeiling ≤ e →
          2098 ≤ ((coefficient * Nat.pow 10 e) <<< 1074).log2 := by
        intro e he
        have hexponent : 1024 ≤ 3 * e := by
          simp only [exponentCeiling] at he
          omega
        exact le_log2_shiftLeft (Nat.pos_of_ne_zero hzero) hexponent 1074
      rw [Nat.min_eq_right (by omega), Binary64.roundQuotient_eq_infinite (hlarge _ (Nat.le_refl _)),
        Binary64.roundQuotient_eq_infinite (hlarge _ (by omega))]

theorem magnitude_eq (d : Decimal) :
    d.magnitude = Binary64.roundQuotient ((d.coefficient * Nat.pow 10 d.exponent.toNat) <<< 1074)
      (Nat.pow 10 (-d.exponent).toNat) := by
  obtain ⟨coefficient, exponent⟩ := d
  cases exponent with
  | ofNat e =>
    have hnone : (-(Int.ofNat e)).toNat = 0 := by simp
    rw [hnone]
    exact roundQuotient_exponentCeiling coefficient e
  | negSucc e =>
    have hone : coefficient * Nat.pow 10 (Int.negSucc e).toNat = coefficient := Nat.mul_one _
    rw [hone]
    exact roundQuotient_placesCeiling coefficient (e + 1)

theorem magnitude_congr {d d' : Decimal}
    (h : d.coefficient * Nat.pow 10 d.exponent.toNat * Nat.pow 10 (-d'.exponent).toNat =
      d'.coefficient * Nat.pow 10 d'.exponent.toNat * Nat.pow 10 (-d.exponent).toNat) :
    d.magnitude = d'.magnitude := by
  rw [magnitude_eq, magnitude_eq]
  refine Binary64.roundQuotient_congr (Nat.pow_pos (by decide)) (Nat.pow_pos (by decide)) ?_
  rw [Nat.shiftLeft_eq, Nat.shiftLeft_eq, Nat.mul_right_comm, h, Nat.mul_right_comm]

end Decimal

end ShellFrontend
