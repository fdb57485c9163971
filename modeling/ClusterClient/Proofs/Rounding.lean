import Mathlib.Tactic.FieldSimp
import Mathlib.Tactic.Linarith
import Mathlib.Tactic.Positivity
import Mathlib.Tactic.Ring
import ClusterClient.Numeric.Binary

/-!
# Rounding to a binary format

What a magnitude is worth, as a rational number, and how far rounding moves a quotient. A magnitude
is an exponent and a significand, and rounding divides by the power of two at which the quotient
fills the significand, so it moves the quotient by at most half of that power.

## The architecture

* **`roundHalfEven_error`**, **`roundHalfEven_eq`**: rounding to integers.
* **`BinaryFormat.units_mul_add`**, **`BinaryFormat.magnitude_eq`**: a magnitude by its parts.
* **`BinaryFormat.round_error`**: what is large enough is moved by a small part of itself.
* **`BinaryFormat.round_eq`**: what is close enough to a finite number is rounded to it, also where
  the numbers below lie twice as close.
-/

namespace ClusterClient

/-! ## Rounding to integers -/

/-- Rounding to an integer moves a quotient by a half at most. -/
theorem roundHalfEven_error (num : Nat) {den : Nat} (h : 0 < den) :
    |(roundHalfEven num den : ℚ) - num / den| ≤ 1 / 2 := by
  have hden : (0 : ℚ) < den := Nat.cast_pos.mpr h
  have hparts : (num : ℚ) = den * (num / den : Nat) + (num % den : Nat) := by
    exact_mod_cast (Nat.div_add_mod num den).symm
  have hquotient : (num : ℚ) / den = (num / den : Nat) + (num % den : Nat) / den := by
    rw [hparts]
    field_simp
  have hrest : ((num % den : Nat) : ℚ) / den < 1 := by
    rw [div_lt_one hden]
    exact_mod_cast Nat.mod_lt num h
  unfold roundHalfEven
  dsimp only
  rw [hquotient, abs_le]
  split
  · next hup =>
    -- rounded up, so the rest is a half at the least
    have hhalf : (1 : ℚ) / 2 ≤ (num % den : Nat) / den := by
      rw [le_div_iff₀ hden]
      have hle : den ≤ 2 * (num % den) := by omega
      have hcast : (den : ℚ) ≤ 2 * (num % den : Nat) := by exact_mod_cast hle
      linarith
    push_cast
    constructor <;> linarith
  · next hdown =>
    -- rounded down, so the rest is a half at the most
    have hhalf : ((num % den : Nat) : ℚ) / den ≤ 1 / 2 := by
      rw [div_le_iff₀ hden]
      have hle : 2 * (num % den) ≤ den := by omega
      have hcast : 2 * ((num % den : Nat) : ℚ) ≤ den := by exact_mod_cast hle
      linarith
    have hpos : (0 : ℚ) ≤ (num % den : Nat) / den := by positivity
    constructor <;> linarith

/-- What is less than a half away from an integer is rounded to it. -/
theorem roundHalfEven_eq {num den k : Nat} (h : 0 < den) (hk : |(num : ℚ) / den - k| < 1 / 2) :
    roundHalfEven num den = k := by
  have herror := roundHalfEven_error num h
  rw [abs_le] at herror
  rw [abs_lt] at hk
  -- within a half on either side there is one integer only
  have hbelow : (roundHalfEven num den : ℚ) < k + 1 := by linarith
  have habove : (k : ℚ) < roundHalfEven num den + 1 := by linarith
  have hbelow' : roundHalfEven num den < k + 1 := by exact_mod_cast hbelow
  have habove' : k < roundHalfEven num den + 1 := by exact_mod_cast habove
  omega

namespace BinaryFormat

variable (f : BinaryFormat)

/-- What a finite magnitude is worth. -/
def worth (magnitude : Nat) : ℚ :=
  f.units magnitude / 2 ^ f.scale

/-! ## Magnitudes by their parts -/

/-- The worth of a normal number, in units of the least one. -/
theorem units_of_normal {e s : Nat} (hs : s < 2 ^ f.fractionBits) :
    f.units ((e + 1) * 2 ^ f.fractionBits + s) = (2 ^ f.fractionBits + s) * 2 ^ e := by
  have hP : 0 < 2 ^ f.fractionBits := Nat.two_pow_pos _
  unfold units significand BinaryFormat.shift
  simp only [Nat.pow_eq]
  generalize 2 ^ f.fractionBits = P at *
  have hdiv : ((e + 1) * P + s) / P = e + 1 := by
    rw [Nat.mul_comm, Nat.mul_add_div hP, Nat.div_eq_of_lt hs, Nat.add_zero]
  have hmod : ((e + 1) * P + s) % P = s := by
    rw [Nat.mul_comm, Nat.mul_add_mod, Nat.mod_eq_of_lt hs]
  have hnormal : ¬ (e + 1) * P + s < P := by
    rw [Nat.add_mul]
    omega
  rw [if_neg hnormal, hdiv, hmod, Nat.add_sub_cancel]

/-- The worth of an exponent and a significand. The significand is at least that of a normal number,
unless the exponent is the least; one that is twice the least carries into the exponent. -/
theorem units_mul_add {e r : Nat} (hleast : 2 ^ f.fractionBits ≤ r ∨ e = 0)
    (hmost : r ≤ 2 ^ (f.fractionBits + 1)) :
    f.units (e * 2 ^ f.fractionBits + r) = r * 2 ^ e := by
  have hP : 0 < 2 ^ f.fractionBits := Nat.two_pow_pos _
  rw [Nat.pow_succ] at hmost
  rcases Nat.lt_or_ge r (2 ^ f.fractionBits) with hr | hr
  · -- only the least exponent has smaller significands
    obtain rfl : e = 0 := hleast.resolve_left (by omega)
    unfold units significand BinaryFormat.shift
    simp only [Nat.pow_eq, Nat.zero_mul, Nat.zero_add]
    rw [if_pos hr, Nat.div_eq_of_lt hr]
  · rcases Nat.lt_or_ge r (2 ^ f.fractionBits * 2) with hlt | hge
    · have hsplit : e * 2 ^ f.fractionBits + r =
          (e + 1) * 2 ^ f.fractionBits + (r - 2 ^ f.fractionBits) := by
        rw [Nat.add_mul]
        omega
      rw [hsplit, units_of_normal f (by omega), Nat.add_sub_cancel' hr]
    · -- the carry
      obtain rfl : r = 2 ^ f.fractionBits * 2 := Nat.le_antisymm hmost hge
      have hsplit : e * 2 ^ f.fractionBits + 2 ^ f.fractionBits * 2 =
          (e + 1 + 1) * 2 ^ f.fractionBits + 0 := by ring
      rw [hsplit, units_of_normal f hP]
      ring

/-- A magnitude is its exponent and its significand. -/
theorem magnitude_eq (m : Nat) : f.shift m * 2 ^ f.fractionBits + f.significand m = m := by
  have hP : 0 < 2 ^ f.fractionBits := Nat.two_pow_pos _
  have hparts := Nat.div_add_mod m (2 ^ f.fractionBits)
  unfold significand BinaryFormat.shift
  simp only [Nat.pow_eq]
  split
  · next hlt => rw [Nat.div_eq_of_lt hlt, Nat.zero_sub, Nat.zero_mul, Nat.zero_add]
  · next hge =>
    have hone : 1 ≤ m / 2 ^ f.fractionBits := (Nat.one_le_div_iff hP).mpr (by omega)
    rw [Nat.sub_mul, Nat.mul_comm (m / _), Nat.one_mul]
    have hle : 2 ^ f.fractionBits ≤ 2 ^ f.fractionBits * (m / 2 ^ f.fractionBits) :=
      Nat.le_mul_of_pos_right _ hone
    omega

theorem significand_lt (m : Nat) : f.significand m < 2 ^ (f.fractionBits + 1) := by
  have hP : 0 < 2 ^ f.fractionBits := Nat.two_pow_pos _
  have hmod := Nat.mod_lt m hP
  rw [Nat.pow_succ]
  unfold significand
  simp only [Nat.pow_eq]
  split <;> omega

/-- A normal number has the leading bit. -/
theorem significand_normal {m : Nat} (h : 2 ^ f.fractionBits ≤ m) :
    2 ^ f.fractionBits ≤ f.significand m := by
  unfold significand
  simp only [Nat.pow_eq]
  rw [if_neg (by omega)]
  omega

theorem significand_subnormal {m : Nat} (h : m < 2 ^ f.fractionBits) : f.significand m = m := by
  unfold significand
  simp only [Nat.pow_eq]
  rw [if_pos h]

theorem significand_pos {m : Nat} (h : 0 < m) : 0 < f.significand m := by
  rcases Nat.lt_or_ge m (2 ^ f.fractionBits) with hlt | hge
  · rwa [f.significand_subnormal hlt]
  · exact lt_of_lt_of_le (Nat.two_pow_pos _) (f.significand_normal hge)

theorem shift_subnormal {m : Nat} (h : m < 2 ^ f.fractionBits) : f.shift m = 0 := by
  unfold BinaryFormat.shift
  simp only [Nat.pow_eq]
  rw [Nat.div_eq_of_lt h]

/-! ## Rounding -/

/-- The quotient in units of the format. -/
def scaled (num den : Nat) : ℚ :=
  num / den * 2 ^ f.scale

/-- Dividing by a power of two before or after scaling is the same. -/
theorem scaled_div (num den e : Nat) :
    f.scaled num den / 2 ^ e = ((num * 2 ^ f.scale : Nat) : ℚ) / ((den * 2 ^ e : Nat) : ℚ) := by
  unfold scaled
  push_cast
  field_simp

/-- What rounding gives is an exponent and a significand, up to the infinite. -/
theorem round_parts (num den : Nat) {e : Nat}
    (he : (num * 2 ^ f.scale / den).log2 - f.fractionBits = e) :
    f.round num den = min (e * 2 ^ f.fractionBits +
      roundHalfEven (num * 2 ^ f.scale) (den * 2 ^ e)) f.infinite := by
  unfold round
  simp only [Nat.pow_eq]
  rw [he]

/-- Zero is rounded to zero, whatever it is divided by. -/
theorem round_zero (den : Nat) : f.round 0 den = 0 := by
  have hzero : ∀ d, roundHalfEven 0 d = 0 := by
    intro d
    unfold roundHalfEven
    dsimp only
    rw [Nat.zero_div, Nat.zero_mod, if_neg]
    omega
  unfold round
  dsimp only
  rw [Nat.zero_mul, hzero, Nat.zero_div, Nat.log2_zero, Nat.zero_sub, Nat.zero_mul, Nat.zero_add,
    Nat.zero_min]

section

variable {num den : Nat} (hden : 0 < den)

include hden

/-- The rounded significand is half a unit away at most. -/
theorem significand_error (e : Nat) :
    |(roundHalfEven (num * 2 ^ f.scale) (den * 2 ^ e) : ℚ) * 2 ^ e - f.scaled num den| ≤
      2 ^ e / 2 := by
  have hpow : (0 : ℚ) < 2 ^ e := by positivity
  have herror := roundHalfEven_error (num * 2 ^ f.scale)
    (Nat.mul_pos hden (Nat.two_pow_pos e))
  rw [← scaled_div] at herror
  have hsplit : (roundHalfEven (num * 2 ^ f.scale) (den * 2 ^ e) : ℚ) * 2 ^ e - f.scaled num den =
      (roundHalfEven (num * 2 ^ f.scale) (den * 2 ^ e) - f.scaled num den / 2 ^ e) * 2 ^ e := by
    rw [sub_mul, div_mul_cancel₀ _ hpow.ne']
  rw [hsplit, abs_mul, abs_of_pos hpow]
  calc _ ≤ 1 / 2 * (2 : ℚ) ^ e := mul_le_mul_of_nonneg_right herror hpow.le
    _ = 2 ^ e / 2 := by ring

/-- The binary logarithm of the whole units. -/
theorem scaled_log2 (h : 1 ≤ f.scaled num den) :
    (2 : ℚ) ^ (num * 2 ^ f.scale / den).log2 ≤ f.scaled num den ∧
      f.scaled num den < 2 ^ ((num * 2 ^ f.scale / den).log2 + 1) := by
  have hd : (0 : ℚ) < den := Nat.cast_pos.mpr hden
  have hscaled : f.scaled num den = ((num * 2 ^ f.scale : Nat) : ℚ) / den := by
    unfold scaled
    push_cast
    ring
  rw [hscaled] at h ⊢
  have hone : 1 ≤ num * 2 ^ f.scale / den := by
    rw [one_le_div hd] at h
    exact (Nat.one_le_div_iff hden).mpr (by exact_mod_cast h)
  have hlow := Nat.log2_self_le (n := num * 2 ^ f.scale / den) (by omega)
  have hhigh := Nat.lt_log2_self (n := num * 2 ^ f.scale / den)
  constructor
  · rw [le_div_iff₀ hd]
    exact_mod_cast (Nat.le_div_iff_mul_le hden).mp hlow
  · rw [div_lt_iff₀ hd]
    exact_mod_cast (Nat.div_lt_iff_lt_mul hden).mp hhigh

/-- **What is large enough is moved by a small part of itself**, if there is a finite number beyond
it. -/
theorem round_error (hleast : 2 ^ f.fractionBits ≤ f.scaled num den)
    (hmost : f.scaled num den < 2 ^ (f.fractionBits + 2 ^ f.exponentBits - 3)) :
    f.round num den < f.infinite ∧
      |(f.units (f.round num den) : ℚ) - f.scaled num den| ≤
        f.scaled num den / 2 ^ (f.fractionBits + 1) := by
  have hone : (1 : ℚ) ≤ f.scaled num den := le_trans (one_le_pow₀ one_le_two) hleast
  obtain ⟨hlow, hhigh⟩ := f.scaled_log2 hden hone
  generalize hL : (num * 2 ^ f.scale / den).log2 = L at hlow hhigh
  -- the exponent fits: it is at least zero and there is a finite one beyond it
  have hle : f.fractionBits ≤ L := by
    have hpow : (2 : ℚ) ^ f.fractionBits < 2 ^ (L + 1) := lt_of_le_of_lt hleast hhigh
    have := (pow_lt_pow_iff_right₀ (by norm_num : (1 : ℚ) < 2)).mp hpow
    omega
  have hlt : L < f.fractionBits + 2 ^ f.exponentBits - 3 :=
    (pow_lt_pow_iff_right₀ (by norm_num : (1 : ℚ) < 2)).mp (lt_of_le_of_lt hlow hmost)
  obtain ⟨e, rfl⟩ := Nat.exists_eq_add_of_le hle
  have hparts := f.round_parts num den (e := e) (by omega)
  have herror := @significand_error f num den hden e
  generalize roundHalfEven (num * 2 ^ f.scale) (den * 2 ^ e) = r at hparts herror
  have hpow : (0 : ℚ) < 2 ^ e := by positivity
  rw [abs_le] at herror
  -- the quotient fills the significand, so what it is rounded to does
  have hr : 2 ^ f.fractionBits ≤ r := by
    have hcast : ((2 : ℚ) ^ f.fractionBits) * 2 ^ e < (r + 1) * 2 ^ e := by
      rw [pow_add] at hlow
      linarith
    have hlt : (2 : ℚ) ^ f.fractionBits < r + 1 := lt_of_mul_lt_mul_right hcast hpow.le
    have hnat : 2 ^ f.fractionBits < r + 1 := by exact_mod_cast hlt
    omega
  have hr' : r ≤ 2 ^ (f.fractionBits + 1) := by
    have hcast : (r : ℚ) * 2 ^ e < (2 ^ (f.fractionBits + 1) + 1) * 2 ^ e := by
      rw [show f.fractionBits + e + 1 = f.fractionBits + 1 + e by omega, pow_add] at hhigh
      linarith
    have hlt : (r : ℚ) < 2 ^ (f.fractionBits + 1) + 1 := lt_of_mul_lt_mul_right hcast hpow.le
    have hnat : r < 2 ^ (f.fractionBits + 1) + 1 := by exact_mod_cast hlt
    omega
  have hfinite : e * 2 ^ f.fractionBits + r < f.infinite := by
    have hthree : e + 2 < 2 ^ f.exponentBits - 1 := by omega
    unfold infinite
    simp only [Nat.pow_eq]
    calc e * 2 ^ f.fractionBits + r ≤ (e + 2) * 2 ^ f.fractionBits := by
          rw [Nat.add_mul]
          omega
      _ < (2 ^ f.exponentBits - 1) * 2 ^ f.fractionBits :=
          Nat.mul_lt_mul_of_pos_right hthree (Nat.two_pow_pos _)
  rw [hparts, Nat.min_eq_left hfinite.le]
  refine ⟨hfinite, ?_⟩
  rw [f.units_mul_add (.inl hr) hr']
  push_cast
  -- half a unit of the last place is a small part of what fills the significand
  have hstep : (2 : ℚ) ^ e / 2 ≤ f.scaled num den / 2 ^ (f.fractionBits + 1) := by
    rw [le_div_iff₀ (by positivity), pow_succ]
    rw [pow_add] at hlow
    linarith
  rw [abs_le]
  constructor <;> linarith

/-- The exponent at which a quotient is rounded. -/
theorem log2_sub {e : Nat} (hleast : 2 ^ (f.fractionBits + e) ≤ f.scaled num den ∨ e = 0)
    (hmost : f.scaled num den < 2 ^ (f.fractionBits + e + 1)) :
    (num * 2 ^ f.scale / den).log2 - f.fractionBits = e := by
  rcases lt_or_ge (f.scaled num den) 1 with hsmall | hone
  · -- no whole unit
    obtain rfl : e = 0 := by
      refine hleast.resolve_left fun hle => ?_
      exact absurd (lt_of_le_of_lt hle hsmall) (not_lt.mpr (one_le_pow₀ one_le_two))
    have hzero : num * 2 ^ f.scale / den = 0 := by
      have hd : (0 : ℚ) < den := Nat.cast_pos.mpr hden
      have hquotient : f.scaled num den = ((num * 2 ^ f.scale : Nat) : ℚ) / den := by
        unfold scaled
        push_cast
        ring
      rw [hquotient, div_lt_one hd] at hsmall
      exact Nat.div_eq_of_lt (by exact_mod_cast hsmall)
    rw [hzero]
    exact Nat.zero_sub _
  · -- the logarithm lies between both bounds
    obtain ⟨hlow, hhigh⟩ := f.scaled_log2 hden hone
    generalize (num * 2 ^ f.scale / den).log2 = L at hlow hhigh
    have hbase : (1 : ℚ) < 2 := by norm_num
    have hle : L < f.fractionBits + e + 1 :=
      (pow_lt_pow_iff_right₀ hbase).mp (lt_of_le_of_lt hlow hmost)
    rcases hleast with hleast | rfl
    · have hge : f.fractionBits + e < L + 1 :=
        (pow_lt_pow_iff_right₀ hbase).mp (lt_of_le_of_lt hleast hhigh)
      omega
    · omega

/-- What is rounded at a known exponent. -/
theorem round_at {e k : Nat} (he : (num * 2 ^ f.scale / den).log2 - f.fractionBits = e)
    (hk : |f.scaled num den - k * 2 ^ e| < 2 ^ e / 2) :
    f.round num den = min (e * 2 ^ f.fractionBits + k) f.infinite := by
  have hpow : (0 : ℚ) < 2 ^ e := by positivity
  rw [f.round_parts num den he, roundHalfEven_eq (Nat.mul_pos hden (Nat.two_pow_pos e))]
  rw [← scaled_div]
  have hsplit : f.scaled num den / 2 ^ e - k = (f.scaled num den - k * 2 ^ e) / 2 ^ e := by
    field_simp
  rw [hsplit, abs_div, abs_of_pos hpow, div_lt_iff₀ hpow]
  linarith

/-- **What is close enough to a finite number is rounded to it.** The least number of an exponent
has its lower neighbour at half the distance of the upper one. -/
theorem round_eq {m : Nat} (hm : m < f.infinite)
    (h : |f.scaled num den - f.units m| < 2 ^ f.shift m / 4) : f.round num den = m := by
  have hparts := f.magnitude_eq m
  have hlt := f.significand_lt m
  have hnormal : 2 ^ f.fractionBits ≤ f.significand m ∨ f.shift m = 0 := by
    rcases Nat.lt_or_ge m (2 ^ f.fractionBits) with hsmall | hlarge
    · exact .inr (f.shift_subnormal hsmall)
    · exact .inl (f.significand_normal hlarge)
  have hunits : (f.units m : ℚ) = f.significand m * 2 ^ f.shift m := by
    unfold units
    simp only [Nat.pow_eq]
    push_cast
    rfl
  rw [hunits] at h
  generalize f.shift m = e at *
  generalize f.significand m = s at *
  have hpow : (0 : ℚ) < 2 ^ e := by positivity
  have hs : (s : ℚ) + 1 ≤ 2 ^ (f.fractionBits + 1) := by exact_mod_cast hlt
  have hbounds := abs_lt.mp h
  have hhalf : |f.scaled num den - s * 2 ^ e| < 2 ^ e / 2 := by linarith
  have hmost : f.scaled num den < 2 ^ (f.fractionBits + e + 1) := by
    have hscaled := mul_le_mul_of_nonneg_right hs hpow.le
    rw [show f.fractionBits + e + 1 = f.fractionBits + 1 + e by omega, pow_add]
    linarith
  -- on the side of its own exponent
  have hsame (hleast : 2 ^ (f.fractionBits + e) ≤ f.scaled num den ∨ e = 0) :
      f.round num den = m := by
    rw [f.round_at hden (f.log2_sub hden hleast hmost) hhalf, hparts, Nat.min_eq_left hm.le]
  rcases le_or_gt (2 ^ (f.fractionBits + e)) (f.scaled num den) with hge | hbelow
  · exact hsame (.inl hge)
  cases e with
  | zero => exact hsame (.inr rfl)
  | succ e =>
    -- just below a power of two, where the numbers lie twice as close
    have hleast := hnormal.resolve_right (Nat.succ_ne_zero e)
    have hp : (1 : ℚ) ≤ 2 ^ f.fractionBits := one_le_pow₀ one_le_two
    have hle : (s : ℚ) < 2 ^ f.fractionBits + 1 := by
      rw [pow_add] at hbelow
      have hlt : (s : ℚ) * 2 ^ (e + 1) < (2 ^ f.fractionBits + 1) * 2 ^ (e + 1) := by linarith
      exact lt_of_mul_lt_mul_right hlt hpow.le
    obtain rfl : s = 2 ^ f.fractionBits := by
      have hnat : s < 2 ^ f.fractionBits + 1 := by exact_mod_cast hle
      omega
    push_cast at h hbounds
    have hpow' : (0 : ℚ) < 2 ^ e := by positivity
    have hdouble : (2 : ℚ) ^ (e + 1) = 2 * 2 ^ e := by ring
    have hge : (2 : ℚ) ^ (f.fractionBits + e) ≤ f.scaled num den := by
      have hscaled := mul_le_mul_of_nonneg_right hp hpow'.le
      rw [pow_add]
      rw [hdouble] at hbounds
      linarith
    have hk : |f.scaled num den - ((2 * 2 ^ f.fractionBits : Nat) : ℚ) * 2 ^ e| < 2 ^ e / 2 := by
      push_cast
      rw [hdouble] at h
      rw [show (2 : ℚ) * 2 ^ f.fractionBits * 2 ^ e = 2 ^ f.fractionBits * (2 * 2 ^ e) by ring]
      linarith
    have hlog := f.log2_sub hden (.inl hge) hbelow
    rw [f.round_at hden hlog hk]
    have hcarry : e * 2 ^ f.fractionBits + 2 * 2 ^ f.fractionBits = m := by
      rw [← hparts]
      ring
    rw [hcarry, Nat.min_eq_left hm.le]

end

end BinaryFormat

end ClusterClient
