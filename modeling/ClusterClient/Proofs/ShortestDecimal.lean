import ClusterClient.Proofs.Digits
import ClusterClient.Proofs.Precision

/-!
# The shortest decimal

The search tries one grid of decimals after the other and takes a neighbour of the double that
rounds to it. Whatever it takes, it has between one and eighteen digits and, for a double of full
precision, is as near to the double as one rounding would be.

* **`Chosen`**, **`chosen_shortestFrom`**: what the search can end with, by induction on the grids
  that are left.
* **`shortestDecimal_digits`**: the digits that are written.
* **`near_shortestDecimal`**: the decimal and the double.
-/

namespace ClusterClient

open BinaryFormat

namespace RoundingInterval

/-- One, over the common denominator without its decimal places. -/
def unity : Nat :=
  4 * Nat.pow 2 double.scale

/-- The unit of the grid of a power of ten, over the common denominator. -/
def gridUnit (exponent : Int) : Nat :=
  unity * Nat.pow 10 (places + exponent).toNat

theorem unity_pos : 0 < unity := by
  unfold unity
  rw [Nat.pow_eq]
  positivity

theorem gridUnit_pos (e : Int) : 0 < gridUnit e :=
  Nat.mul_pos unity_pos (Nat.pow_pos (by decide))

variable {i : RoundingInterval}

/-- A neighbour is one of the two, and rounds to the value. -/
theorem neighbour_of_some {unit digits : Nat} (h : i.neighbour? unit = some digits) :
    (digits = i.value / unit ∨ digits = i.value / unit + 1) ∧
      i.contains (digits * unit) = true := by
  unfold neighbour? at h
  dsimp only at h
  split at h
  · next hlower hupper =>
    obtain rfl := Option.some.inj h
    split
    · exact ⟨.inl rfl, hlower⟩
    · exact ⟨.inr rfl, hupper⟩
  · next hlower _ =>
    obtain rfl := Option.some.inj h
    exact ⟨.inl rfl, hlower⟩
  · next _ hupper =>
    obtain rfl := Option.some.inj h
    exact ⟨.inr rfl, hupper⟩
  · cases h

/-- What the search can end with: a neighbour on one of the grids, or the lower neighbour on the
finest one. -/
inductive Chosen (i : RoundingInterval) (top : Int) : Decimal → Prop where
  | inside {n digits : Nat} (first : 1 ≤ n) (last : n ≤ 18)
      (beside : digits = i.value / gridUnit (top - n) ∨ digits = i.value / gridUnit (top - n) + 1)
      (rounds : i.contains (digits * gridUnit (top - n)) = true) : Chosen i top ⟨digits, top - n⟩
  | below : Chosen i top ⟨i.value / gridUnit (top - 18), top - 18⟩

/-- **The search, by the grids that are left.** -/
theorem chosen_shortestFrom (top : Int) {fuel n : Nat} (hn : 1 ≤ n) (hleft : n + fuel = 18) :
    Chosen i top (shortestFrom i top fuel n) := by
  induction fuel generalizing n with
  | zero =>
    obtain rfl : n = 18 := hleft
    exact .below
  | succ fuel ih =>
    have hunit : 4 * Nat.pow 2 double.scale * Nat.pow 10 (places + (top - n)).toNat =
        gridUnit (top - n) := rfl
    rw [shortestFrom, hunit]
    cases hneighbour : i.neighbour? (gridUnit (top - n)) with
    | none => exact ih (by omega) (by omega)
    | some digits =>
      obtain ⟨beside, rounds⟩ := neighbour_of_some hneighbour
      exact .inside hn (by omega) beside rounds

/-! ## The grids of a double -/

section

variable {m : Nat} (hm : 0 < m)

include hm

/-- The least double has eighteen digits before the common denominator's point. -/
theorem least_value : unity * 10 ^ 17 ≤ (ofDouble m).value := by
  have hpow : ∀ scale k, scale ≤ 3 * k → Nat.pow 2 scale ≤ 10 ^ k := by
    intro scale k hscale
    rw [Nat.pow_eq]
    calc 2 ^ scale ≤ 2 ^ (3 * k) := Nat.pow_le_pow_right (by decide) hscale
      _ = (2 ^ 3) ^ k := pow_mul 2 3 k
      _ ≤ 10 ^ k := Nat.pow_le_pow_left (by decide) k
  have hsum : ∀ j k, Nat.pow 10 (j + k) = 10 ^ j * 10 ^ k := Nat.pow_add 10
  have hs := double.significand_pos hm
  calc unity * 10 ^ 17 = 4 * (Nat.pow 2 double.scale * 10 ^ 17) := Nat.mul_assoc ..
    _ ≤ 4 * (10 ^ 383 * 10 ^ 17) :=
        Nat.mul_le_mul_left 4 (Nat.mul_le_mul_right _ (hpow _ 383 (by decide)))
    _ = 4 * Nat.pow 10 places := by rw [show places = 383 + 17 from rfl, hsum 383 17]
    _ ≤ 4 * (double.significand m * (Nat.pow 2 (double.shift m) * Nat.pow 10 places)) := by
        apply Nat.mul_le_mul_left
        rw [← Nat.mul_assoc]
        exact Nat.le_mul_of_pos_left _ (Nat.mul_pos hs (Nat.pow_pos (by decide)))
    _ = (ofDouble m).value := (Nat.mul_assoc ..).symm

/-- The number of digits before the common denominator's point. -/
theorem exists_length : ∃ d, (decimalDigits ((ofDouble m).value / unity)).length = d ∧ 18 ≤ d ∧
    10 ^ (d - 1) ≤ (ofDouble m).value / unity ∧ (ofDouble m).value / unity < 10 ^ d := by
  have hleast : 10 ^ 17 ≤ (ofDouble m).value / unity := by
    rw [Nat.le_div_iff_mul_le unity_pos, Nat.mul_comm]
    exact least_value hm
  generalize (ofDouble m).value / unity = ones at hleast
  refine ⟨_, rfl, ?_, ?_, ?_⟩
  · by_contra hcontra
    have hlt := (length_decimalDigits_le (n := ones) (k := 17) (by decide)).mp (by omega)
    omega
  · by_contra hcontra
    rcases Nat.lt_or_ge 1 (decimalDigits ones).length with hlong | hshort
    · have hle := (length_decimalDigits_le (by omega)).mpr (Nat.lt_of_not_le hcontra)
      omega
    · have hlt := (length_decimalDigits_le (n := ones) (k := 1) (by decide)).mp hshort
      omega
  · exact (length_decimalDigits_le (List.length_pos_iff.mpr (decimalDigits_ne_nil ones))).mp le_rfl

omit hm in
/-- The lower neighbour on the grid of `n` digits has `n` digits. -/
theorem lower_bounds {n d : Nat} (first : 1 ≤ n) (last : n ≤ d)
    (hleast : 10 ^ (d - 1) ≤ (ofDouble m).value / unity)
    (hmost : (ofDouble m).value / unity < 10 ^ d) :
    10 ^ (n - 1) ≤ (ofDouble m).value / gridUnit (d - places - n) ∧
      (ofDouble m).value / gridUnit (d - places - n) < 10 ^ n := by
  have hunit : gridUnit ((d : Int) - places - n) = unity * 10 ^ (d - n) := by
    unfold gridUnit
    congr 2
    omega
  rw [hunit, ← Nat.div_div_eq_div_mul]
  have hpos : 0 < 10 ^ (d - n) := Nat.pow_pos (by decide)
  constructor
  · rw [Nat.le_div_iff_mul_le hpos, ← Nat.pow_add]
    rwa [show n - 1 + (d - n) = d - 1 by omega]
  · rw [Nat.div_lt_iff_lt_mul hpos, ← Nat.pow_add]
    rwa [show n + (d - n) = d by omega]

end

end RoundingInterval

open RoundingInterval

/-- What the search starts with. -/
theorem chosen_shortestDecimal (m : Nat) : Chosen (ofDouble m)
    ((decimalDigits ((ofDouble m).value / unity)).length - places) (shortestDecimal m) :=
  chosen_shortestFrom _ le_rfl rfl

/-- **The digits that are written**: at least one, and at most eighteen. -/
theorem shortestDecimal_digits {m : Nat} (hm : 0 < m) :
    0 < (shortestDecimal m).digits ∧ (shortestDecimal m).digits ≤ 10 ^ 18 := by
  have hchosen := chosen_shortestDecimal m
  obtain ⟨d, hd, hlong, hleast, hmost⟩ := exists_length hm
  rw [hd] at hchosen
  generalize shortestDecimal m = decimal at hchosen
  cases hchosen with
  | @inside n digits first last beside rounds =>
    obtain ⟨hlow, hhigh⟩ := lower_bounds first (by omega) hleast hmost
    have hone : 1 ≤ 10 ^ (n - 1) := Nat.one_le_pow _ _ (by decide)
    have hpow : 10 ^ n ≤ 10 ^ 18 := Nat.pow_le_pow_right (by decide) last
    dsimp only
    omega
  | below =>
    obtain ⟨hlow, hhigh⟩ := lower_bounds (n := 18) (by decide) hlong hleast hmost
    dsimp only
    exact ⟨lt_of_lt_of_le (by decide) hlow, hhigh.le⟩

/-! ## How near it is -/

/-- The common denominator. -/
def commonDenominator : ℚ :=
  unity * 10 ^ places

theorem commonDenominator_pos : 0 < commonDenominator :=
  mul_pos (Nat.cast_pos.mpr unity_pos) (by positivity)

/-- The worth of a double, over the denominator that doubles and decimals share. -/
theorem worth_eq_value (m : Nat) : double.worth m = (ofDouble m).value / commonDenominator := by
  have hvalue : (ofDouble m).value =
      4 * double.significand m * (Nat.pow 2 (double.shift m) * Nat.pow 10 places) := rfl
  rw [hvalue]
  unfold worth units commonDenominator unity
  simp only [Nat.pow_eq]
  push_cast
  rw [mul_div_mul_comm, mul_div_mul_comm]
  field_simp

/-- The worth of a decimal, over the same denominator. -/
theorem worth_eq_grid {digits : Nat} {e : Int} (h : 0 ≤ places + e) :
    (⟨digits, e⟩ : Decimal).worth = (digits * gridUnit e : Nat) / commonDenominator := by
  have hsplit : (10 : ℚ) ^ (places + e).toNat = 10 ^ places * 10 ^ e := by
    rw [← zpow_natCast, Int.toNat_of_nonneg h, zpow_add₀ (by norm_num), zpow_natCast]
  have hunity : (unity : ℚ) ≠ 0 := (Nat.cast_pos.mpr unity_pos).ne'
  unfold Decimal.worth gridUnit commonDenominator
  simp only [Nat.pow_eq]
  push_cast
  rw [hsplit]
  field_simp

/-- A point that rounds to a double is two quarters of its unit away at most. -/
theorem contains_bounds {m point : Nat} (h : (ofDouble m).contains point = true) :
    (4 * double.significand m - 2) * (Nat.pow 2 (double.shift m) * Nat.pow 10 places) ≤ point ∧
      point ≤ (4 * double.significand m + 2) *
        (Nat.pow 2 (double.shift m) * Nat.pow 10 places) := by
  have hbounds : (ofDouble m).low ≤ point ∧ point ≤ (ofDouble m).high := by
    unfold contains at h
    split at h
    · exact of_decide_eq_true h
    · have hstrict := of_decide_eq_true h
      exact ⟨hstrict.1.le, hstrict.2.le⟩
  refine ⟨le_trans ?_ hbounds.1, hbounds.2⟩
  unfold ofDouble
  dsimp only
  apply Nat.mul_le_mul_right
  split <;> omega

/-- **The shortest decimal is as near as one rounding.** -/
theorem near_shortestDecimal {m : Nat} (hm : 2 ^ double.fractionBits ≤ m) :
    Near 1 (shortestDecimal m).worth (double.worth m) := by
  have hpos : 0 < m := lt_of_lt_of_le (Nat.two_pow_pos _) hm
  have hchosen := chosen_shortestDecimal m
  obtain ⟨d, hd, hlong, hleast, hmost⟩ := exists_length hpos
  rw [hd] at hchosen
  have hsignificand := double.significand_normal hm
  -- it is enough that a point of the common denominator is near to the value
  have hpoint : ∀ {digits : Nat} {e : Int}, 0 ≤ places + e →
      |((digits * gridUnit e : Nat) : ℚ) - (ofDouble m).value| ≤ (ofDouble m).value / 2 ^ 53 →
      Near 1 (⟨digits, e⟩ : Decimal).worth (double.worth m) := by
    intro digits e he herror
    rw [worth_eq_grid he, worth_eq_value]
    have hvalue : 0 < ((ofDouble m).value : ℚ) := by
      have hle := least_value hpos
      have hnat : 0 < (ofDouble m).value :=
        lt_of_lt_of_le (Nat.mul_pos unity_pos (by decide)) hle
      exact_mod_cast hnat
    refine .of_error (div_pos hvalue commonDenominator_pos) ?_
    rw [← sub_div, abs_div, abs_of_pos commonDenominator_pos, div_right_comm]
    exact div_le_div_of_nonneg_right herror commonDenominator_pos.le
  generalize shortestDecimal m = decimal at hchosen
  cases hchosen with
  | @inside n digits first last beside rounds =>
    apply hpoint (by omega)
    obtain ⟨hlow, hhigh⟩ := contains_bounds rounds
    have hvalue : (ofDouble m).value =
        4 * double.significand m * (Nat.pow 2 (double.shift m) * Nat.pow 10 places) := rfl
    have hs : 2 ^ 52 ≤ double.significand m := hsignificand
    rw [hvalue]
    generalize digits * gridUnit (d - places - n) = point at hlow hhigh
    generalize Nat.pow 2 (double.shift m) * Nat.pow 10 places = unit at hlow hhigh
    generalize double.significand m = s at hlow hhigh hs
    rw [Nat.sub_mul, Nat.sub_le_iff_le_add] at hlow
    rw [Nat.add_mul] at hhigh
    have hfill : 2 ^ 52 * unit ≤ s * unit := Nat.mul_le_mul_right unit hs
    have hlow' : (4 * s * unit : ℚ) ≤ point + 2 * unit := by exact_mod_cast hlow
    have hhigh' : (point : ℚ) ≤ 4 * s * unit + 2 * unit := by exact_mod_cast hhigh
    have hfill' : (2 ^ 52 * unit : ℚ) ≤ s * unit := by exact_mod_cast hfill
    push_cast
    rw [abs_le]
    constructor <;> linarith
  | below =>
    apply hpoint (by omega)
    obtain ⟨hlow, -⟩ := lower_bounds (n := 18) (by decide) hlong hleast hmost
    have hunit := gridUnit_pos (d - places - 18)
    generalize gridUnit (d - places - 18) = unit at hlow hunit
    generalize (ofDouble m).value = value at hlow
    have hfloor : value / unit * unit ≤ value := Nat.div_mul_le_self value unit
    have hnext : value < unit * (value / unit + 1) := Nat.lt_mul_div_succ value hunit
    have hfill : 2 ^ 53 * unit ≤ value / unit * unit :=
      Nat.mul_le_mul_right unit (le_trans (by decide) hlow)
    rw [Nat.mul_comm, Nat.add_mul, Nat.one_mul] at hnext
    have hfloor' : ((value / unit * unit : Nat) : ℚ) ≤ value := by exact_mod_cast hfloor
    have hnext' : (value : ℚ) ≤ (value / unit * unit : Nat) + unit := by exact_mod_cast hnext.le
    have hfill' : (2 ^ 53 * unit : ℚ) ≤ (value / unit * unit : Nat) := by exact_mod_cast hfill
    rw [abs_le]
    constructor <;> linarith

end ClusterClient
