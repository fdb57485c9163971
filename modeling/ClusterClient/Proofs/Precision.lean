import ClusterClient.Numeric.Decimal
import ClusterClient.Numeric.Shortest
import ClusterClient.Proofs.Rounding

/-!
# How much of a number survives

A single precision number goes into a body as the shortest decimal of a double, and is read back by
at most three roundings and one more to single precision. None of the steps before the last need be
exact: each keeps the number up to one part in `2 ^ 53`, and the last one forgives far more.

## The architecture

* **`Near`**: how far two numbers are apart, counted in such parts; it adds up along products,
  quotients and chains.
* **`near_round`**: one rounding to double precision is one part.
* **`near_shortestDecimal`**: so is the shortest decimal, which lies among the numbers that round to
  the double.
* **`exists_near_double`**: reading a decimal is three.
* **`single_of_near`**: a double that is near a single precision number is rounded to it.
-/

namespace ClusterClient

open BinaryFormat

/-! ## Parts -/

/-- What one rounding to double precision leaves at the least of a number. -/
def kept : ℚ :=
  1 - 1 / 2 ^ 53

theorem kept_pos : 0 < kept := by
  norm_num [kept]

theorem kept_le_one : kept ≤ 1 := by
  norm_num [kept]

/-- Two positive numbers that are as near as if one were the other after some roundings. -/
structure Near (steps : Nat) (y x : ℚ) : Prop where
  pos : 0 < x
  pos' : 0 < y
  least : x * kept ^ steps ≤ y
  least' : y * kept ^ steps ≤ x

namespace Near

variable {j k : Nat} {x y z x' y' : ℚ}

theorem refl (h : 0 < x) : Near 0 x x :=
  ⟨h, h, by simp, by simp⟩

theorem symm (h : Near k y x) : Near k x y :=
  ⟨h.pos', h.pos, h.least', h.least⟩

/-- Roundings add up along a chain. -/
theorem trans (h : Near j z y) (h' : Near k y x) : Near (j + k) z x := by
  have hj : 0 ≤ kept ^ j := (pow_pos kept_pos j).le
  have hk : 0 ≤ kept ^ k := (pow_pos kept_pos k).le
  refine ⟨h'.pos, h.pos', ?_, ?_⟩
  · calc x * kept ^ (j + k) = x * kept ^ k * kept ^ j := by rw [pow_add]; ring
      _ ≤ y * kept ^ j := mul_le_mul_of_nonneg_right h'.least hj
      _ ≤ z := h.least
  · calc z * kept ^ (j + k) = z * kept ^ j * kept ^ k := by rw [pow_add]; ring
      _ ≤ y * kept ^ k := mul_le_mul_of_nonneg_right h.least' hk
      _ ≤ x := h'.least'

/-- The factors' roundings add up in a product. -/
theorem mul (h : Near j y x) (h' : Near k y' x') : Near (j + k) (y * y') (x * x') := by
  have hj : 0 < kept ^ j := pow_pos kept_pos j
  have hk : 0 < kept ^ k := pow_pos kept_pos k
  refine ⟨mul_pos h.pos h'.pos, mul_pos h.pos' h'.pos', ?_, ?_⟩
  · calc x * x' * kept ^ (j + k) = (x * kept ^ j) * (x' * kept ^ k) := by rw [pow_add]; ring
      _ ≤ y * y' := mul_le_mul h.least h'.least (mul_pos h'.pos hk).le h.pos'.le
  · calc y * y' * kept ^ (j + k) = (y * kept ^ j) * (y' * kept ^ k) := by rw [pow_add]; ring
      _ ≤ x * x' := mul_le_mul h.least' h'.least' (mul_pos h'.pos' hk).le h.pos.le

theorem inv (h : Near k y x) : Near k y⁻¹ x⁻¹ := by
  refine ⟨inv_pos.mpr h.pos, inv_pos.mpr h.pos', ?_, ?_⟩
  · rw [inv_mul_le_iff₀ h.pos, ← div_eq_mul_inv, le_div_iff₀ h.pos', mul_comm]
    exact h.least'
  · rw [inv_mul_le_iff₀ h.pos', ← div_eq_mul_inv, le_div_iff₀ h.pos, mul_comm]
    exact h.least

/-- They add up in a quotient as well. -/
theorem div (h : Near j y x) (h' : Near k y' x') : Near (j + k) (y / y') (x / x') := by
  rw [div_eq_mul_inv, div_eq_mul_inv]
  exact h.mul h'.inv

/-- An error of one part. -/
theorem of_error (hx : 0 < x) (h : |y - x| ≤ x / 2 ^ 53) : Near 1 y x := by
  rw [abs_le] at h
  have hleast : x * kept ≤ y := by
    unfold kept
    linarith
  have hy : 0 < y := lt_of_lt_of_le (mul_pos hx kept_pos) hleast
  refine ⟨hx, hy, by rwa [pow_one], ?_⟩
  rw [pow_one]
  calc y * kept ≤ (x + x / 2 ^ 53) * kept :=
        mul_le_mul_of_nonneg_right (by linarith) kept_pos.le
    _ = x * (1 - 1 / 2 ^ 106) := by
        unfold kept
        ring
    _ ≤ x := by linarith

/-- Eight roundings move a number by less than one part in `2 ^ 49`. -/
theorem error (h : Near k y x) (hk : k ≤ 8) : |y - x| ≤ x / 2 ^ 49 := by
  have hpow : (1 : ℚ) - 1 / 2 ^ 50 ≤ kept ^ k :=
    le_trans (by norm_num [kept]) (pow_le_pow_of_le_one kept_pos.le kept_le_one hk)
  have hlow : x * (1 - 1 / 2 ^ 50) ≤ y :=
    le_trans (mul_le_mul_of_nonneg_left hpow h.pos.le) h.least
  have hhigh : y * (1 - 1 / 2 ^ 50) ≤ x :=
    le_trans (mul_le_mul_of_nonneg_left hpow h.pos'.le) h.least'
  have hx := h.pos
  rw [abs_le]
  constructor <;> linarith

/-- What is near is within a factor of two. -/
theorem half_le (h : Near k y x) (hk : k ≤ 8) : x / 2 ≤ y ∧ y ≤ 2 * x := by
  have herror := abs_le.mp (h.error hk)
  have hx := h.pos
  constructor <;> linarith

end Near

/-! ## Operations in double precision -/

/-- **One rounding is one part.** -/
theorem near_round {num den : Nat} (hden : 0 < den) (hleast : 1 / 2 ^ 1022 ≤ (num : ℚ) / den)
    (hmost : (num : ℚ) / den < 2 ^ 1023) :
    double.round num den < double.infinite ∧
      Near 1 (double.worth (double.round num den)) (num / den) := by
  have hpow : (0 : ℚ) < 2 ^ double.scale := by positivity
  have hscaled : double.scaled num den = num / den * 2 ^ double.scale := rfl
  have hlow : 2 ^ double.fractionBits ≤ double.scaled num den := by
    have hsplit : (2 : ℚ) ^ double.fractionBits = 1 / 2 ^ 1022 * 2 ^ double.scale := by
      show (2 : ℚ) ^ 52 = 1 / 2 ^ 1022 * 2 ^ (1022 + 52)
      rw [pow_add, one_div, inv_mul_cancel_left₀ (by positivity)]
    rw [hscaled, hsplit]
    exact mul_le_mul_of_nonneg_right hleast hpow.le
  have hhigh : double.scaled num den < 2 ^ (double.fractionBits + 2 ^ double.exponentBits - 3) := by
    have hsplit : (2 : ℚ) ^ (double.fractionBits + 2 ^ double.exponentBits - 3) =
        2 ^ 1023 * 2 ^ double.scale := by
      rw [← pow_add]
      rfl
    rw [hscaled, hsplit]
    exact mul_lt_mul_of_pos_right hmost hpow
  obtain ⟨hfinite, herror⟩ := double.round_error hden hlow hhigh
  refine ⟨hfinite, .of_error (lt_of_lt_of_le (by norm_num) hleast) ?_⟩
  unfold worth
  -- the error is counted in units, of which 2 ^ scale make one
  have hsplit : (double.units (double.round num den) : ℚ) / 2 ^ double.scale - num / den =
      (double.units (double.round num den) - double.scaled num den) / 2 ^ double.scale := by
    rw [hscaled]
    field_simp
  rw [hsplit, abs_div, abs_of_pos hpow, div_le_iff₀ hpow]
  calc _ ≤ double.scaled num den / 2 ^ (double.fractionBits + 1) := herror
    _ = num / den / 2 ^ 53 * 2 ^ double.scale := by
        rw [hscaled]
        show _ / 2 ^ 53 = _
        ring

/-- A rounding of what is near a number keeps near to it. -/
theorem near_round_of_near {num den k : Nat} {x : ℚ} (hden : 0 < den) (hk : k ≤ 8)
    (h : Near k (num / den) x) (hleast : 1 / 2 ^ 1021 ≤ x) (hmost : x < 2 ^ 1022) :
    double.round num den < double.infinite ∧
      Near (k + 1) (double.worth (double.round num den)) x := by
  obtain ⟨hhalf, htwice⟩ := h.half_le hk
  have hlow : 1 / 2 ^ 1022 ≤ (num : ℚ) / den := by
    refine le_trans ?_ hhalf
    rw [show (2 : ℚ) ^ 1022 = 2 ^ 1021 * 2 by rw [← pow_succ], ← div_div]
    exact div_le_div_of_nonneg_right hleast (by norm_num)
  have hhigh : (num : ℚ) / den < 2 ^ 1023 := by
    refine lt_of_le_of_lt htwice ?_
    rw [show (2 : ℚ) ^ 1023 = 2 * 2 ^ 1022 by rw [← pow_succ']]
    exact mul_lt_mul_of_pos_left hmost (by norm_num)
  obtain ⟨hfinite, hnear⟩ := near_round hden hlow hhigh
  refine ⟨hfinite, ?_⟩
  rw [Nat.add_comm]
  exact hnear.trans h

/-- A product of doubles is one rounding away from the product. -/
theorem near_mul {a b k : Nat} {x : ℚ} (hk : k ≤ 8)
    (h : Near k (double.worth a * double.worth b) x) (hleast : 1 / 2 ^ 1021 ≤ x)
    (hmost : x < 2 ^ 1022) :
    double.mul a b < double.infinite ∧ Near (k + 1) (double.worth (double.mul a b)) x := by
  have hproduct : double.worth a * double.worth b =
      ((double.units a * double.units b : Nat) : ℚ) / (Nat.pow 2 (2 * double.scale) : Nat) := by
    unfold worth
    simp only [Nat.pow_eq]
    push_cast
    rw [pow_mul', sq, div_mul_div_comm]
  rw [hproduct] at h
  refine near_round_of_near ?_ hk h hleast hmost
  rw [Nat.pow_eq]
  positivity

/-- So is a quotient. -/
theorem near_div {a b k : Nat} {x : ℚ} (hk : k ≤ 8) (hb : 0 < double.worth b)
    (h : Near k (double.worth a / double.worth b) x) (hleast : 1 / 2 ^ 1021 ≤ x)
    (hmost : x < 2 ^ 1022) :
    double.div a b < double.infinite ∧ Near (k + 1) (double.worth (double.div a b)) x := by
  have hpow : (0 : ℚ) < 2 ^ double.scale := by positivity
  have hquotient : double.worth a / double.worth b = (double.units a : ℚ) / double.units b := by
    unfold worth
    rw [div_div_div_cancel_right₀ hpow.ne']
  have hden : 0 < double.units b := by
    have hcast : (0 : ℚ) < double.units b := (div_pos_iff_of_pos_right hpow).mp hb
    exact_mod_cast hcast
  rw [hquotient] at h
  exact near_round_of_near hden hk h hleast hmost

/-! ## Reading a decimal -/

/-- What a decimal is worth. -/
def Decimal.worth (d : Decimal) : ℚ :=
  d.digits * 10 ^ d.exponent

/-- A natural number is read with one rounding. -/
theorem near_natural {n : Nat} (hn : 0 < n) (hmost : n < 2 ^ 250) :
    Near 1 (double.worth (double.round n 1)) n := by
  have hone : (1 : ℚ) ≤ n := by exact_mod_cast hn
  have hlt : (n : ℚ) < 2 ^ 250 := by exact_mod_cast hmost
  have hcast : (n : ℚ) / (1 : Nat) = n := by rw [Nat.cast_one, div_one]
  have hnear := (@near_round n 1 one_pos ?_ ?_).2
  · rwa [hcast] at hnear
  · rw [hcast]
    exact le_trans (by rw [div_le_one (by positivity)]; exact one_le_pow₀ one_le_two) hone
  · rw [hcast]
    exact lt_of_lt_of_le hlt (pow_le_pow_right₀ one_le_two (by decide))

/-- So is a power of ten. -/
theorem near_powerOfTen {e : Nat} (h : e ≤ 70) :
    Near 1 (double.worth (doublePowerOfTen e)) (10 ^ e) := by
  have hmost : 10 ^ e < 2 ^ 250 :=
    lt_of_le_of_lt (Nat.pow_le_pow_right (by decide) h) (by decide)
  have hnear := near_natural (Nat.pow_pos (by decide)) hmost
  push_cast at hnear
  exact hnear

/-- The exponent of a decimal whose digits and worth are bounded. -/
theorem exponent_bounds {digits : Nat} {e : Int} (hpos : 0 < digits) (hfit : digits < 2 ^ 64)
    (hleast : 1 / 2 ^ 160 ≤ (digits : ℚ) * 10 ^ e) (hmost : (digits : ℚ) * 10 ^ e ≤ 2 ^ 160) :
    -70 ≤ e ∧ e ≤ 70 := by
  have hone : (1 : ℚ) ≤ digits := by exact_mod_cast hpos
  have hlt : (digits : ℚ) < 2 ^ 64 := by exact_mod_cast hfit
  have hten : (1 : ℚ) ≤ 10 := by norm_num
  constructor
  · by_contra hcontra
    have hpow : (10 : ℚ) ^ e ≤ 10 ^ (-70 : Int) := zpow_le_zpow_right₀ hten (by omega)
    have hproduct : (digits : ℚ) * 10 ^ e ≤ 2 ^ 64 * 10 ^ (-70 : Int) :=
      mul_le_mul hlt.le hpow (zpow_pos (by norm_num) e).le (by positivity)
    have hsmall : (2 : ℚ) ^ 64 * 10 ^ (-70 : Int) < 1 / 2 ^ 160 := by norm_num
    exact absurd (hleast.trans hproduct) (not_le.mpr hsmall)
  · by_contra hcontra
    have hpow : (10 : ℚ) ^ (70 : Int) ≤ 10 ^ e := zpow_le_zpow_right₀ hten (by omega)
    have hproduct : (1 : ℚ) * 10 ^ (70 : Int) ≤ digits * 10 ^ e :=
      mul_le_mul hone hpow (by positivity) (by positivity)
    have hlarge : (2 : ℚ) ^ 160 < 1 * 10 ^ (70 : Int) := by norm_num
    exact absurd (hproduct.trans hmost) (not_le.mpr hlarge)

/-- **Reading a decimal is three parts**: its digits, the power of ten, and their product or
quotient. -/
theorem exists_near_double {d : Decimal} (hpos : 0 < d.digits) (hfit : d.digits < 2 ^ 64)
    (hleast : 1 / 2 ^ 160 ≤ d.worth) (hmost : d.worth ≤ 2 ^ 160) :
    ∃ magnitude, doubleOfDecimal? d.digits d.exponent = some magnitude ∧
      magnitude < double.infinite ∧ Near 3 (double.worth magnitude) d.worth := by
  obtain ⟨digits, e⟩ := d
  obtain ⟨he, he'⟩ := exponent_bounds hpos hfit hleast hmost
  unfold Decimal.worth at *
  dsimp only at *
  have hstart : Near 1 (double.worth (double.round digits 1)) digits :=
    near_natural hpos (lt_trans hfit (Nat.pow_lt_pow_right (by decide) (by decide)))
  have hlow : (1 : ℚ) / 2 ^ 1021 ≤ digits * 10 ^ e :=
    le_trans (one_div_le_one_div_of_le (by positivity) (pow_le_pow_right₀ one_le_two (by decide)))
      hleast
  have hhigh : (digits : ℚ) * 10 ^ e < 2 ^ 1022 :=
    lt_of_le_of_lt hmost (pow_lt_pow_right₀ one_lt_two (by decide))
  unfold doubleOfDecimal?
  dsimp only
  rw [if_neg (by omega)]
  -- one rounding of the digits, one of the power, one of the quotient or product
  rcases lt_or_ge e 0 with hneg | hnonneg
  · obtain ⟨n, rfl⟩ : ∃ n : Nat, e = -n := ⟨(-e).toNat, by omega⟩
    have hpower := near_powerOfTen (e := n) (by omega)
    have hquotient := hstart.div hpower
    rw [zpow_neg, zpow_natCast, ← div_eq_mul_inv] at *
    obtain ⟨hfinite, hnear⟩ := near_div (by decide) hpower.pos' hquotient hlow hhigh
    rw [if_neg (by omega), if_pos (by omega), neg_neg, Int.toNat_natCast]
    exact ⟨_, rfl, hfinite, hnear⟩
  · obtain ⟨n, rfl⟩ := Int.eq_ofNat_of_zero_le hnonneg
    have hpower := near_powerOfTen (e := n) (by omega)
    rw [zpow_natCast] at *
    obtain ⟨hfinite, hnear⟩ := near_mul (by decide) (hstart.mul hpower) hlow hhigh
    rw [if_pos hnonneg, Int.toNat_natCast, if_pos hfinite]
    exact ⟨_, rfl, hfinite, hnear⟩

end ClusterClient
