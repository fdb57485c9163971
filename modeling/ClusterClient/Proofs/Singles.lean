import ClusterClient.Proofs.NumberText

/-!
# Single precision numbers, written and read

A finite single precision number is written as the shortest decimal of the double of the same worth.
Five roundings later it is rounded to single precision, where numbers lie so far apart that it is
found again.

* **`double_of_single`**: the double that is written.
* **`single_of_near`**: what is near to a finite number is rounded to it.
* **`exists_number_of_single`**: the text of a finite number, and the number it is read as.
-/

namespace ClusterClient

open BinaryFormat Json

/-- The least and the greatest finite number, roughly. -/
theorem worth_single_bounds {m : Nat} (hpos : 0 < m) (hm : m < single.infinite) :
    1 / 2 ^ 149 ≤ single.worth m ∧ single.worth m < 2 ^ 128 := by
  have hscale : (2 : ℚ) ^ single.scale = 2 ^ 149 := rfl
  unfold worth
  rw [hscale]
  constructor
  · -- a positive number has one unit at the least
    have hone : 1 ≤ single.units m :=
      Nat.mul_pos (single.significand_pos hpos) (Nat.two_pow_pos _)
    have hcast : (1 : ℚ) ≤ single.units m := by exact_mod_cast hone
    exact div_le_div_of_nonneg_right hcast (by positivity)
  · have hs : single.significand m < 2 ^ 24 := single.significand_lt m
    -- the greatest exponent is that before the infinite
    have hshift : single.shift m ≤ 253 := by
      have hlt : m < 255 * 2 ^ 23 := hm
      have hdiv : m / 2 ^ 23 < 255 := Nat.div_lt_of_lt_mul (by omega)
      show m / 2 ^ 23 - 1 ≤ 253
      omega
    have hunits : single.units m < 2 ^ 24 * 2 ^ 253 := by
      unfold units
      rw [Nat.pow_eq]
      exact Nat.mul_lt_mul_of_lt_of_le hs (Nat.pow_le_pow_right (by decide) hshift)
        (Nat.two_pow_pos _)
    have hcast : (single.units m : ℚ) < 2 ^ 24 * 2 ^ 253 := by exact_mod_cast hunits
    rw [div_lt_iff₀ (by positivity)]
    calc (single.units m : ℚ) < 2 ^ 24 * 2 ^ 253 := hcast
      _ = 2 ^ 128 * 2 ^ 149 := by rw [← pow_add, ← pow_add]

/-- **The double that is written** is near to the number, and of full precision. -/
theorem double_of_single {m : Nat} (hpos : 0 < m) (hm : m < single.infinite) :
    2 ^ double.fractionBits ≤ double.round (single.units m) (Nat.pow 2 single.scale) ∧
      Near 1 (double.worth (double.round (single.units m) (Nat.pow 2 single.scale)))
        (single.worth m) := by
  obtain ⟨hleast, hmost⟩ := worth_single_bounds hpos hm
  have hden : 0 < Nat.pow 2 single.scale := Nat.two_pow_pos _
  have hworth : (single.units m : ℚ) / (Nat.pow 2 single.scale : Nat) = single.worth m := by
    unfold worth
    rw [Nat.pow_eq]
    push_cast
    rfl
  have hlow : (1 : ℚ) / 2 ^ 1022 ≤ single.worth m :=
    le_trans (one_div_le_one_div_of_le (by positivity)
      (pow_le_pow_right₀ one_le_two (by decide))) hleast
  have hhigh : single.worth m < 2 ^ 1023 :=
    lt_trans hmost (pow_lt_pow_right₀ one_lt_two (by decide))
  rw [← hworth] at hlow hhigh
  obtain ⟨-, hnear⟩ := near_round hden hlow hhigh
  rw [hworth] at hnear
  refine ⟨?_, hnear⟩
  -- a subnormal double would be far smaller
  by_contra hsmall
  generalize double.round (single.units m) (Nat.pow 2 single.scale) = magnitude at hnear hsmall
  have hlt : magnitude < 2 ^ double.fractionBits := Nat.lt_of_not_le hsmall
  have hunits : double.units magnitude = magnitude := by
    unfold units
    rw [double.significand_subnormal hlt, double.shift_subnormal hlt]
    exact Nat.mul_one _
  have hcast : (magnitude : ℚ) < 2 ^ 52 := by exact_mod_cast hlt
  have hhalf := (hnear.half_le (by decide)).1
  have htiny : ∀ scale, 52 + (149 + 1) ≤ scale → (magnitude : ℚ) / 2 ^ scale < 1 / 2 ^ 149 / 2 := by
    intro scale hscale
    rw [div_div, ← pow_succ, div_lt_div_iff₀ (by positivity) (by positivity), one_mul]
    calc (magnitude : ℚ) * 2 ^ (149 + 1) < 2 ^ 52 * 2 ^ (149 + 1) :=
          mul_lt_mul_of_pos_right hcast (by positivity)
      _ = 2 ^ (52 + (149 + 1)) := (pow_add 2 52 (149 + 1)).symm
      _ ≤ 2 ^ scale := pow_le_pow_right₀ one_le_two hscale
  have hworth' : double.worth magnitude < 1 / 2 ^ 149 / 2 := by
    unfold worth
    rw [hunits]
    exact htiny double.scale (by decide)
  linarith

/-- **What is near to a finite number is rounded to it.** -/
theorem single_of_near {m magnitude k : Nat} (hm : m < single.infinite) (hk : k ≤ 8)
    (h : Near k (double.worth magnitude) (single.worth m)) :
    single.round (double.units magnitude) (Nat.pow 2 double.scale) = m := by
  have hden : 0 < Nat.pow 2 double.scale := by
    rw [Nat.pow_eq]
    positivity
  apply single.round_eq hden hm
  have hpow : (0 : ℚ) < 2 ^ single.scale := by positivity
  have hscaled : single.scaled (double.units magnitude) (Nat.pow 2 double.scale) =
      double.worth magnitude * 2 ^ single.scale := by
    unfold scaled worth
    rw [Nat.pow_eq]
    push_cast
    rfl
  have hunits : (single.units m : ℚ) = single.worth m * 2 ^ single.scale := by
    unfold worth
    rw [div_mul_cancel₀ _ hpow.ne']
  have herror := h.error hk
  -- 2 ^ 49 parts of a significand of 24 bits are far below a quarter of a unit
  have hs : single.significand m < 2 ^ 24 := single.significand_lt m
  have hs' : (single.significand m : ℚ) < 2 ^ 24 := by exact_mod_cast hs
  have hparts : (single.units m : ℚ) = single.significand m * 2 ^ single.shift m := by
    unfold units
    rw [Nat.pow_eq]
    push_cast
    rfl
  have hshift : (0 : ℚ) < 2 ^ single.shift m := by positivity
  rw [hscaled, hunits, ← sub_mul, abs_mul, abs_of_pos hpow]
  calc _ ≤ single.worth m / 2 ^ 49 * 2 ^ single.scale := mul_le_mul_of_nonneg_right herror hpow.le
    _ = single.significand m * 2 ^ single.shift m / 2 ^ 49 := by rw [← hparts, hunits]; ring
    _ < 2 ^ 24 * 2 ^ single.shift m / 2 ^ 49 :=
        div_lt_div_of_pos_right (mul_lt_mul_of_pos_right hs' hshift) (by positivity)
    _ ≤ 2 ^ single.shift m / 4 := by linarith

/-- **The text of a finite number** is read as a double that single precision rounds to it. -/
theorem exists_number_of_single {x : Binary32} (hx : x.isFinite = true) :
    ∃ n y, NumeralText (Utf8.encodeChars (Binary64.text (x.convert .double))) n ∧
      n.number? = some (.real y) ∧ y.convert .single = x := by
  obtain ⟨negative, m⟩ := x
  have hm : m < single.infinite := of_decide_eq_true hx
  have hconvert : (⟨negative, m⟩ : Binary32).convert .double =
      ⟨negative, double.round (single.units m) (Nat.pow 2 single.scale)⟩ := by
    unfold Binary.convert
    rw [if_pos hx]
  have hback : ∀ magnitude, magnitude < double.infinite →
      single.round (double.units magnitude) (Nat.pow 2 double.scale) = m →
      (⟨negative, magnitude⟩ : Binary64).convert .single = ⟨negative, m⟩ := by
    intro magnitude hfinite hround
    have hx : (⟨negative, magnitude⟩ : Binary64).isFinite = true := decide_eq_true hfinite
    unfold Binary.convert
    rw [if_pos hx, hround]
  have htext := realText_text ((⟨negative, m⟩ : Binary32).convert .double)
  rw [hconvert] at htext ⊢
  rcases Nat.eq_zero_or_pos m with rfl | hpos
  · rw [show single.units 0 = 0 from rfl, round_zero] at htext ⊢
    obtain ⟨n, hn, hnumber⟩ := RealText.zero htext
    refine ⟨n, _, hn, hnumber, hback 0 (by decide) ?_⟩
    rw [show double.units 0 = 0 from rfl, round_zero]
  · obtain ⟨hfull, hnear⟩ := double_of_single hpos hm
    generalize double.round (single.units m) (Nat.pow 2 single.scale) = magnitude at *
    have hdecimal := (near_shortestDecimal hfull).trans hnear
    have hne : magnitude ≠ 0 := by
      have hone : 0 < 2 ^ double.fractionBits := Nat.two_pow_pos _
      omega
    have hworth : writtenWorth magnitude = (shortestDecimal magnitude).worth := if_neg hne
    rw [hworth] at htext
    -- both the number and its decimal lie far from the ends of the doubles
    obtain ⟨hleast, hmost⟩ := worth_single_bounds hpos hm
    obtain ⟨hhalf, htwice⟩ := hdecimal.half_le (by decide)
    obtain ⟨n, back, hn, hnumber, hfinite, hread⟩ := htext.near
      (le_trans (le_trans (by norm_num) (div_le_div_of_nonneg_right hleast (by norm_num))) hhalf)
      (le_trans htwice (le_trans (mul_le_mul_of_nonneg_left hmost.le (by norm_num)) (by norm_num)))
    exact ⟨n, _, hn, hnumber, hback back hfinite (single_of_near hm (by decide) (hread.trans hdecimal))⟩

end ClusterClient
