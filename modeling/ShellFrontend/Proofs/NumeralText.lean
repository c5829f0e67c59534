import Mathlib.Data.List.TakeWhile
import ShellFrontend.Number.Numeral
import ShellFrontend.Proofs.RoundQuotient

/-! # Numbers are read back from their text

The text of a decimal is digits, and a fraction after a point if there is one; reading it gives
a decimal of the same value. The shortest decimal of a magnitude is rounded back to it, whichever
grid it was found on.
-/

set_option autoImplicit false

namespace ShellFrontend

open ShellFrontend.Text (isDigit)

namespace Text.Digits

theorem value_toDigits (n : Nat) : value (Nat.toDigits 10 n) = n :=
  Nat.ofDigitChars_ten_toDigits

theorem value_append (a b : List Char) : value (a ++ b) = Nat.pow 10 b.length * value a + value b := by
  have happend : value (a ++ b) = Nat.ofDigitChars 10 b (value a) := Nat.ofDigitChars_append 0
  rw [happend]
  exact Nat.ofDigitChars_eq_ofDigitChars_zero

theorem value_replicate_zero (n : Nat) : value (List.replicate n '0') = 0 :=
  Nat.ofDigitChars_replicate_zero.trans (Nat.mul_zero _)

theorem isDigit_of_mem_toDigits {n : Nat} {c : Char} (h : c ∈ Nat.toDigits 10 n) : isDigit c := by
  have hdigit : c.isDigit := Nat.isDigit_of_mem_toDigits (by decide) (by decide) h
  exact hdigit

theorem value_padded (width n : Nat) : value (padded width n) = n := by
  rw [padded, value_append, value_replicate_zero, value_toDigits, Nat.mul_zero, Nat.zero_add]

theorem isDigit_of_mem_padded {width n : Nat} {c : Char} (h : c ∈ padded width n) : isDigit c := by
  rcases List.mem_append.1 h with hzero | hdigit
  · rw [List.eq_of_mem_replicate hzero]
    rfl
  · exact isDigit_of_mem_toDigits hdigit

theorem length_padded {width n : Nat} (hwidth : 0 < width) (h : n < Nat.pow 10 width) :
    (padded width n).length = width := by
  have hle : (Nat.toDigits 10 n).length ≤ width :=
    (Nat.length_toDigits_le_iff (by decide) hwidth).2 h
  simp only [padded, List.length_append, List.length_replicate]
  omega

theorem exists_eq_trimZeros_append (digits : List Char) :
    ∃ n, digits = trimZeros digits ++ List.replicate n '0' := by
  have hzeros : ∀ c ∈ digits.reverse.takeWhile (· = '0'), c = '0' := by
    intro c hc
    simpa using List.mem_takeWhile_imp hc
  have hsplit := @List.takeWhile_append_dropWhile _ (fun c : Char => decide (c = '0')) digits.reverse
  rw [List.eq_replicate_of_mem hzeros] at hsplit
  refine ⟨(digits.reverse.takeWhile (· = '0')).length, ?_⟩
  rw [trimZeros, ← List.reverse_replicate, ← List.reverse_append, hsplit, List.reverse_reverse]

end Text.Digits

open ShellFrontend.Text.Digits

/-- Digits, or digits on both sides of a point. -/
inductive IsPositional : List Char → Prop
  | whole {digits : List Char} (hne : digits ≠ []) (hdigits : ∀ c ∈ digits, isDigit c) :
      IsPositional digits
  | fraction {digits more : List Char} (hne : digits ≠ []) (hdigits : ∀ c ∈ digits, isDigit c)
      (hmore : more ≠ []) (hmoreDigits : ∀ c ∈ more, isDigit c) : IsPositional (digits ++ '.' :: more)

namespace Decimal

theorem ofText?_whole {digits : List Char} (hne : digits ≠ []) (hdigits : ∀ c ∈ digits, isDigit c) :
    ofText? digits = some ⟨value digits, 0⟩ := by
  have htake : digits.takeWhile isDigit = digits := List.takeWhile_eq_self_iff.2 hdigits
  have hdrop : digits.dropWhile isDigit = [] := List.dropWhile_eq_nil_iff.2 hdigits
  simp [ofText?, htake, hdrop, hne, Numeral.exponent?]

theorem ofText?_fraction {digits more : List Char} (hne : digits ≠ [])
    (hdigits : ∀ c ∈ digits, isDigit c) (hmoreDigits : ∀ c ∈ more, isDigit c) :
    ofText? (digits ++ '.' :: more) = some ⟨value (digits ++ more), -(more.length : Int)⟩ := by
  have htake : (digits ++ '.' :: more).takeWhile isDigit = digits := by
    rw [List.takeWhile_append_of_pos hdigits, List.takeWhile_cons_of_neg (by decide),
      List.append_nil]
  have hdrop : (digits ++ '.' :: more).dropWhile isDigit = '.' :: more := by
    rw [List.dropWhile_append_of_pos hdigits, List.dropWhile_cons_of_neg (by decide)]
  have htake' : more.takeWhile isDigit = more := List.takeWhile_eq_self_iff.2 hmoreDigits
  have hdrop' : more.dropWhile isDigit = [] := List.dropWhile_eq_nil_iff.2 hmoreDigits
  simp [ofText?, htake, hdrop, htake', hdrop', hne, Numeral.exponent?]

theorem exists_fraction (scaled places : Nat) :
    let fraction := trimZeros (padded places (scaled % Nat.pow 10 places))
    (∀ c ∈ fraction, isDigit c) ∧ ∃ n, fraction.length + n = places ∧
      Nat.pow 10 n * value fraction = scaled % Nat.pow 10 places := by
  intro fraction
  obtain ⟨n, hn⟩ := exists_eq_trimZeros_append (padded places (scaled % Nat.pow 10 places))
  have hdigits : ∀ c ∈ fraction, isDigit c := by
    intro c hc
    apply @isDigit_of_mem_padded places (scaled % Nat.pow 10 places) c
    rw [hn]
    exact List.mem_append_left _ hc
  refine ⟨hdigits, ?_⟩
  cases places with
  | zero =>
    have hzero : scaled % Nat.pow 10 0 = 0 := Nat.mod_one scaled
    refine ⟨0, ?_, ?_⟩ <;> simp only [fraction, hzero] <;> decide
  | succ places =>
    have hlength := length_padded (Nat.succ_pos places)
      (Nat.mod_lt scaled (Nat.pow_pos (by decide : 0 < 10)))
    have hvalue := value_padded (places + 1) (scaled % Nat.pow 10 (places + 1))
    rw [hn] at hlength hvalue
    rw [List.length_append, List.length_replicate] at hlength
    rw [value_append, value_replicate_zero, List.length_replicate] at hvalue
    exact ⟨n, hlength, hvalue⟩

/-- The text of a decimal is positional and denotes a decimal of the same value. -/
theorem isPositional_text (d : Decimal) :
    IsPositional d.text ∧ ∃ d', ofText? d.text = some d' ∧ d'.magnitude = d.magnitude := by
  obtain ⟨coefficient, exponent⟩ := d
  let scaled := coefficient * Nat.pow 10 exponent.toNat
  let places := (-exponent).toNat
  let fraction := trimZeros (padded places (scaled % Nat.pow 10 places))
  let whole := Nat.toDigits 10 (scaled / Nat.pow 10 places)
  have htext : text ⟨coefficient, exponent⟩ =
      whole ++ if fraction.isEmpty then [] else '.' :: fraction := rfl
  obtain ⟨hfraction, n, hlength, hvalue⟩ := exists_fraction scaled places
  have hne : whole ≠ [] := Nat.toDigits_ne_nil
  have hwhole : ∀ c ∈ whole, isDigit c := fun c hc => isDigit_of_mem_toDigits hc
  -- The digits that are written are those of the scaled value up to the zeros that are trimmed.
  have hscaled : Nat.pow 10 n * value (whole ++ fraction) = scaled := by
    have hpow : Nat.pow 10 n * Nat.pow 10 fraction.length = Nat.pow 10 places := by
      rw [← hlength, Nat.add_comm]
      exact (Nat.pow_add 10 n fraction.length).symm
    calc Nat.pow 10 n * value (whole ++ fraction)
        = Nat.pow 10 n * Nat.pow 10 fraction.length * value whole +
          Nat.pow 10 n * value fraction := by rw [value_append, Nat.mul_add, Nat.mul_assoc]
      _ = Nat.pow 10 places * (scaled / Nat.pow 10 places) + scaled % Nat.pow 10 places := by
        rw [hpow, hvalue, value_toDigits]
      _ = scaled := Nat.div_add_mod scaled (Nat.pow 10 places)
  have hmagnitude : magnitude ⟨value (whole ++ fraction), -(fraction.length : Int)⟩ =
      magnitude ⟨coefficient, exponent⟩ := by
    apply magnitude_congr
    have hexponent : (-(fraction.length : Int)).toNat = 0 := by omega
    have hlength' : (-(-(fraction.length : Int))).toNat = fraction.length := by omega
    have hpow : Nat.pow 10 places = Nat.pow 10 fraction.length * Nat.pow 10 n := by
      rw [← hlength]
      exact Nat.pow_add 10 fraction.length n
    calc value (whole ++ fraction) * Nat.pow 10 (-(fraction.length : Int)).toNat *
          Nat.pow 10 (-exponent).toNat
        = Nat.pow 10 n * value (whole ++ fraction) * Nat.pow 10 fraction.length := by
          rw [hexponent]
          change _ * 1 * Nat.pow 10 places = _
          rw [hpow, Nat.mul_one, Nat.mul_comm (Nat.pow 10 n), Nat.mul_assoc,
            Nat.mul_comm (Nat.pow 10 n)]
      _ = coefficient * Nat.pow 10 exponent.toNat *
          Nat.pow 10 (-(-(fraction.length : Int))).toNat := by rw [hscaled, hlength']
  rw [htext]
  split
  · rename_i hempty
    have hnil : fraction = [] := List.isEmpty_iff.1 hempty
    rw [hnil, List.append_nil] at hmagnitude
    rw [List.append_nil]
    exact ⟨.whole hne hwhole, _, ofText?_whole hne hwhole, hmagnitude⟩
  · rename_i hsome
    have hmore : fraction ≠ [] := fun hnil => hsome (List.isEmpty_iff.2 hnil)
    exact ⟨.fraction hne hwhole hmore hfraction, _, ofText?_fraction hne hwhole hfraction, hmagnitude⟩

end Decimal

namespace Shortest

/-- The finest grid holds the value of a magnitude, which is rounded to it. -/
theorem magnitude_point_zero {magnitude : Nat} (h : magnitude < Binary64.infinite) :
    (point 0 (multiple magnitude)).magnitude = magnitude := by
  have hscale : ∀ units n : Nat,
      Binary64.roundQuotient ((units * Nat.pow 5 n * Nat.pow 10 0) <<< n) (Nat.pow 10 n) =
        Binary64.roundQuotient units 1 := by
    intro units n
    refine Binary64.roundQuotient_congr (Nat.pow_pos (by decide)) Nat.one_pos ?_
    have hten : Nat.pow 5 n * Nat.pow 2 n = Nat.pow 10 n := (Nat.mul_pow 5 2 n).symm
    rw [Nat.shiftLeft_eq, Nat.mul_one, ← hten, ← Nat.mul_assoc]
    exact congrArg (· * 2 ^ n) (Nat.mul_one _)
  have hexponent : (point 0 (multiple magnitude)).exponent.toNat = 0 := rfl
  have hplaces : (-(point 0 (multiple magnitude)).exponent).toNat = places := rfl
  rw [Decimal.magnitude_eq, hexponent, hplaces]
  exact (hscale _ places).trans (Binary64.roundQuotient_units h)

theorem magnitude_of_onGrid? {magnitude value step : Nat} {d : Decimal}
    (h : onGrid? magnitude value step = some d) : d.magnitude = magnitude := by
  unfold onGrid? at h
  dsimp only at h
  split at h
  · rename_i hlower
    exact Option.some.inj h ▸ hlower.1
  · split at h
    · rename_i hupper
      exact Option.some.inj h ▸ hupper
    · cases h

/-- Every decimal that the search can end with is rounded to the magnitude. -/
theorem magnitude_search {magnitude value : Nat} (h : (point 0 value).magnitude = magnitude)
    (step : Nat) : (search magnitude value step).magnitude = magnitude := by
  induction step with
  | zero => exact h
  | succ step ih =>
    rw [search]
    cases hgrid : onGrid? magnitude value (step + 1) with
    | none => exact ih
    | some d => exact magnitude_of_onGrid? hgrid

end Shortest

namespace Binary64

theorem magnitude_shortest {magnitude : Nat} (h : magnitude < infinite) :
    (shortest magnitude).magnitude = magnitude :=
  Shortest.magnitude_search (Shortest.magnitude_point_zero h) _

variable {x : Binary64}

theorem text_eq (hfinite : x.isFinite) (hpositive : x.negative = false) :
    x.text = (shortest x.magnitude).text := by
  have hlt : x.magnitude < infinite := by simpa [isFinite] using hfinite
  have hnan : x.isNaN = false := by simpa [isNaN] using Nat.le_of_lt hlt
  simp [text, hnan, hfinite, hpositive]

theorem isPositional_text (hfinite : x.isFinite) (hpositive : x.negative = false) :
    IsPositional x.text := by
  rw [text_eq hfinite hpositive]
  exact (Decimal.isPositional_text _).1

theorem sign_of_isPositional {text : List Char} (h : IsPositional text) :
    Numeral.sign text = (false, text) := by
  have hdigit : ∀ c ∈ text.head?, isDigit c := by
    cases h with
    | @whole digits hne hdigits =>
      intro c hc
      exact hdigits c (List.mem_of_head? hc)
    | @fraction digits more hne hdigits =>
      obtain ⟨first, others, rfl⟩ := List.exists_cons_of_ne_nil hne
      intro c hc
      obtain rfl := Option.some.inj hc
      exact hdigits first List.mem_cons_self
  unfold Numeral.sign
  split
  · exact absurd (hdigit _ rfl) (by decide)
  · exact absurd (hdigit _ rfl) (by decide)
  · rfl

/-- A finite number that is not negative is read back from its text. -/
theorem ofText?_text (hfinite : x.isFinite) (hpositive : x.negative = false) :
    ofText? x.text = some x := by
  have hlt : x.magnitude < infinite := by simpa [isFinite] using hfinite
  have htext := text_eq hfinite hpositive
  obtain ⟨d, hread, hmagnitude⟩ := (Decimal.isPositional_text (shortest x.magnitude)).2
  rw [magnitude_shortest hlt, ← htext] at *
  have hvalue : d.toBinary64 false = x := by
    obtain ⟨negative, magnitude, hmagnitude_lt⟩ := x
    obtain rfl : negative = false := hpositive
    simp only [Decimal.toBinary64, hmagnitude]
  rw [ofText?, sign_of_isPositional (isPositional_text hfinite hpositive)]
  simp only [hread, Option.map_some, hvalue]

end Binary64

end ShellFrontend
