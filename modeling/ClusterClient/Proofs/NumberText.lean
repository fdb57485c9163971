import Mathlib.Data.List.TakeWhile
import ClusterClient.Json.Writer
import ClusterClient.Proofs.ShortestDecimal

/-!
# Numbers as they are written

Every number is written as a numeral of the grammar. An integer that 64 bits hold, with or without
sign, is read back as itself; a double is written as a text that is read back as a double close by.

## The architecture

* **`Numeral.decimal`**, **`significand_eq`**: a numeral whose digits fit into 64 bits is read as
  the decimal that it writes.
* **`RealText`**: a text with a point or an exponent, by the sign and the worth of its decimal.
* **`realText_place`**: the three layouts of a decimal; **`realText_text`**: the text of a double.
* **`RealText.near`**, **`number?_integer`**: what is read back.
-/

namespace ClusterClient.Json

open BinaryFormat

/-! ## What a numeral writes -/

namespace Numeral

/-- The decimal that a numeral writes, without its sign. -/
def decimal (n : Numeral) : Decimal :=
  ⟨natOfDigits (n.whole ++ n.fraction), n.exponent.getD 0 - n.fraction.length⟩

end Numeral

/-- More digits make no smaller number. -/
theorem le_foldl_digits (v : Nat) (ds : List Nat) : v ≤ ds.foldl (fun v d => v * 10 + d) v := by
  induction ds generalizing v with
  | nil => exact le_rfl
  | cons d ds ih => exact le_trans (by omega) (ih (v * 10 + d))

/-- Digits before the point are gathered without loss as long as they fit. -/
theorem ofWhole_eq {v : Nat} {ds : List Nat}
    (h : ds.foldl (fun v d => v * 10 + d) v < 2 ^ 64) :
    Significand.ofWhole v ds = ⟨ds.foldl (fun v d => v * 10 + d) v, 0⟩ := by
  induction ds generalizing v with
  | nil => rfl
  | cons d ds ih =>
    have hfits : v * 10 + d < Nat.pow 2 64 := lt_of_le_of_lt (le_foldl_digits _ ds) h
    rw [Significand.ofWhole, Significand.extend?, if_pos hfits]
    exact ih h

/-- So are those after it, each for one power of ten less. -/
theorem withFraction_eq {v : Nat} {e : Int} {ds : List Nat}
    (h : ds.foldl (fun v d => v * 10 + d) v < 2 ^ 64) :
    Significand.withFraction ⟨v, e⟩ ds =
      ⟨ds.foldl (fun v d => v * 10 + d) v, e - ds.length⟩ := by
  induction ds generalizing v e with
  | nil => simp [Significand.withFraction]
  | cons d ds ih =>
    have hfits : v * 10 + d < Nat.pow 2 64 := lt_of_le_of_lt (le_foldl_digits _ ds) h
    rw [Significand.withFraction, Significand.extend?, if_pos hfits]
    dsimp only
    rw [ih h, List.length_cons, Nat.cast_add, Nat.cast_one, Int.sub_sub, Int.add_comm 1]
    rfl

/-- **Digits that fit into 64 bits are all gathered.** -/
theorem significand_eq {n : Numeral} (h : n.decimal.digits < 2 ^ 64) :
    n.significand = ⟨n.decimal.digits, n.decimal.exponent⟩ := by
  have happend : n.decimal.digits =
      n.fraction.foldl (fun v d => v * 10 + d) (n.whole.foldl (fun v d => v * 10 + d) 0) :=
    List.foldl_append
  have hwhole : n.whole.foldl (fun v d => v * 10 + d) 0 < 2 ^ 64 :=
    lt_of_le_of_lt (le_foldl_digits _ n.fraction) (happend ▸ h)
  unfold Numeral.significand
  dsimp only
  rw [ofWhole_eq hwhole, withFraction_eq (happend ▸ h), happend]
  dsimp only [Numeral.decimal]
  congr 1
  omega

/-! ## Texts with a point or an exponent -/

/-- A text of the grammar that is read as a double: its sign, and what its decimal is worth. -/
def RealText (bs : List UInt8) (negative : Bool) (x : ℚ) : Prop :=
  ∃ n, NumeralText bs n ∧ n.negative = negative ∧ n.isFractional = true ∧
    n.decimal.digits < 2 ^ 64 ∧ n.decimal.worth = x

/-- The sign in front of a numeral. -/
def signChars (negative : Bool) : List Char :=
  if negative then ['-'] else []

/-- A point and the digits after it, if there are any. -/
def fractionChars (fs : List Char) : List Char :=
  if fs.isEmpty then [] else '.' :: fs

theorem fractionText_chars {fs : List Char} (h : DigitChars fs) :
    FractionText (Utf8.encodeChars (fractionChars fs)) (digitValues fs) := by
  cases fs with
  | nil => exact .none
  | cons f fs =>
    show FractionText (46 :: Utf8.encodeChars (f :: fs)) _
    rw [encodeChars_digits h]
    exact .some (h.digits (List.cons_ne_nil f fs))

/-- A sign, digits, a point with digits and an exponent are a numeral of these parts. -/
theorem numeralText_chars (ws fs mark : List Char) {exponent : Option Int} (negative : Bool)
    (hws : DigitChars ws) (hne : ws ≠ []) (hlead : ws.head? = some '0' → ws = ['0'])
    (hfs : DigitChars fs) (hmark : ExponentText (Utf8.encodeChars mark) exponent) :
    NumeralText (Utf8.encodeChars (signChars negative ++ (ws ++ fractionChars fs ++ mark)))
      ⟨negative, digitValues ws, digitValues fs, exponent⟩ := by
  have hleading : (digitValues ws).head? = some 0 → digitValues ws = [0] := by
    intro hhead
    obtain ⟨c, cs, rfl⟩ := List.exists_cons_of_ne_nil hne
    have hc := isDigit_iff.mp (hws c List.mem_cons_self)
    have hzero : c.toNat - 48 = 0 := Option.some.inj hhead
    obtain rfl : c = '0' := Char.toNat_inj.mp (show c.toNat = 48 by omega)
    rw [hlead rfl]
    rfl
  have hsign : Utf8.encodeChars (signChars negative) = if negative then [45] else [] := by
    cases negative <;> rfl
  rw [Utf8.encodeChars_append, Utf8.encodeChars_append, Utf8.encodeChars_append, hsign,
    encodeChars_digits hws, ← List.append_assoc, ← List.append_assoc]
  exact .parts (hws.digits hne) hleading (fractionText_chars hfs) hmark

/-- The exponent of a decimal. -/
theorem exponentText_chars (l : DecimalLayout) (e : Int) :
    ExponentText (Utf8.encodeChars (l.exponentText e)) (some e) := by
  have hdigits := digitChars_filled l.exponentWidth e.natAbs
  have hne := filled_ne_nil l.exponentWidth e.natAbs
  have hvalue := natOfDigits_filled l.exponentWidth e.natAbs
  have htext : l.exponentText e =
      'e' :: (if e < 0 then '-' else '+') :: filled l.exponentWidth e.natAbs := rfl
  rw [htext]
  generalize filled l.exponentWidth e.natAbs = cs at *
  split
  · next hneg =>
    have he : signed true e.natAbs = e := by
      show -(e.natAbs : Int) = e
      omega
    show ExponentText (101 :: ([45] ++ Utf8.encodeChars cs)) _
    rw [encodeChars_digits hdigits]
    have htext := ExponentText.some (.inl rfl : (101 : UInt8) = 101 ∨ _) .minus (hdigits.digits hne)
    rwa [hvalue, he] at htext
  · next hnonneg =>
    -- an exponent that is not negative is written with its sign all the same
    have he : signed false e.natAbs = e := by
      show (e.natAbs : Int) = e
      omega
    show ExponentText (101 :: ([43] ++ Utf8.encodeChars cs)) _
    rw [encodeChars_digits hdigits]
    have htext := ExponentText.some (.inl rfl : (101 : UInt8) = 101 ∨ _) .plus (hdigits.digits hne)
    rwa [hvalue, he] at htext

/-- If it has a fraction or an exponent, it is read as a double and worth its decimal. -/
theorem realText_chars (ws fs mark : List Char) {exponent : Option Int} (negative : Bool)
    (hws : DigitChars ws) (hne : ws ≠ []) (hlead : ws.head? = some '0' → ws = ['0'])
    (hfs : DigitChars fs) (hmark : ExponentText (Utf8.encodeChars mark) exponent)
    (hreal : fs ≠ [] ∨ exponent.isSome = true)
    (hfit : natOfDigits (digitValues (ws ++ fs)) < 2 ^ 64) :
    RealText (Utf8.encodeChars (signChars negative ++ (ws ++ fractionChars fs ++ mark))) negative
      (natOfDigits (digitValues (ws ++ fs)) * 10 ^ (exponent.getD 0 - fs.length)) := by
  refine ⟨_, numeralText_chars ws fs mark negative hws hne hlead hfs hmark, rfl, ?_, ?_, ?_⟩
  · show (!(digitValues fs).isEmpty || exponent.isSome) = true
    rcases hreal with hreal | hreal
    · cases fs with
      | nil => exact absurd rfl hreal
      | cons f fs => rfl
    · rw [hreal, Bool.or_true]
  · show natOfDigits (digitValues ws ++ digitValues fs) < 2 ^ 64
    rwa [← digitValues_append]
  · unfold Decimal.worth Numeral.decimal
    dsimp only
    rw [← digitValues_append, length_digitValues]

/-! ## The layouts of a decimal -/

section

variable {ds : List Char} {top : Int} (negative : Bool) (hds : DigitChars ds) (hne : ds ≠ [])
  (hhead : ds.head? ≠ some '0') (hfit : natOfDigits (digitValues ds) < 2 ^ 64)

include hds hne hfit

/-- One digit before the point, and an exponent. -/
theorem realText_exponent (l : DecimalLayout) :
    RealText (Utf8.encodeChars (signChars negative ++
      (ds.take 1 ++ fractionChars (ds.drop 1) ++ l.exponentText top))) negative
      (natOfDigits (digitValues ds) * 10 ^ (top + 1 - ds.length)) := by
  obtain ⟨d, more, rfl⟩ := List.exists_cons_of_ne_nil hne
  obtain ⟨hd, hmore⟩ := List.forall_mem_cons.mp hds
  have htext := realText_chars [d] more _ negative (List.forall_mem_singleton.mpr hd) (by simp)
    (fun h => by rw [Option.some.inj h]) hmore (exponentText_chars l top) (.inr rfl) hfit
  have hexponent : (some top).getD 0 - (more.length : Int) = top + 1 - (d :: more).length := by
    rw [List.length_cons, Option.getD_some]
    omega
  rwa [hexponent] at htext

/-- Zeros between the point and the digits. -/
theorem realText_below (htop : top < 0) :
    RealText (Utf8.encodeChars (signChars negative ++
      ('0' :: '.' :: (List.replicate (-top - 1).toNat '0' ++ ds)))) negative
      (natOfDigits (digitValues ds) * 10 ^ (top + 1 - ds.length)) := by
  have hvalue : natOfDigits (digitValues (['0'] ++ (List.replicate (-top - 1).toNat '0' ++ ds))) =
      natOfDigits (digitValues ds) := by
    rw [← List.append_assoc, digitValues_append, natOfDigits_append, digitValues_append,
      digitValues_zeros, natOfDigits_append, natOfDigits_zeros]
    show (0 * _ + 0) * _ + _ = _
    rw [Nat.zero_mul, Nat.add_zero, Nat.zero_mul, Nat.zero_add]
  -- the zeros after the point move the digits, and count for nothing else
  have htext := realText_chars ['0'] _ [] negative (digitChars_zeros 1) (by decide)
    (fun _ => rfl) (digitChars_append (digitChars_zeros (-top - 1).toNat) hds) .none
    (.inl (List.append_ne_nil_of_right_ne_nil _ hne)) (hvalue ▸ hfit)
  have hexponent : (none : Option Int).getD 0 -
      ((List.replicate (-top - 1).toNat '0' ++ ds).length : Int) = top + 1 - ds.length := by
    rw [List.length_append, List.length_replicate, Option.getD_none]
    omega
  have hfraction : fractionChars (List.replicate (-top - 1).toNat '0' ++ ds) =
      '.' :: (List.replicate (-top - 1).toNat '0' ++ ds) := by
    unfold fractionChars
    rw [if_neg]
    simp [hne]
  rw [hvalue, hexponent, hfraction, List.append_nil] at htext
  exact htext

include hhead

/-- The point among the digits, or after the zeros that follow them. -/
theorem realText_among (htop : 0 ≤ top) (hmost : top ≤ 15) :
    RealText (Utf8.encodeChars (signChars negative ++
      (ds.take (top.toNat + 1) ++ List.replicate (top.toNat + 1 - ds.length) '0' ++
        '.' :: (if (ds.drop (top.toNat + 1)).isEmpty then ['0'] else ds.drop (top.toNat + 1)))))
      negative (natOfDigits (digitValues ds) * 10 ^ (top + 1 - ds.length)) := by
  obtain ⟨k, rfl⟩ := Int.eq_ofNat_of_zero_le htop
  rw [Int.toNat_natCast]
  rcases Nat.lt_or_ge (k + 1) ds.length with hlong | hshort
  · -- digits are left for the fraction
    have hdrop : ds.drop (k + 1) ≠ [] := by
      intro h
      have := List.drop_eq_nil_iff.mp h
      omega
    have htake : ds.take (k + 1) ≠ [] := by
      intro h
      rcases List.take_eq_nil_iff.mp h with h | h
      · cases h
      · exact hne h
    have hsplit : ds.take (k + 1) ++ ds.drop (k + 1) = ds := List.take_append_drop _ _
    have hfirst : (ds.take (k + 1)).head? = some '0' → ds.take (k + 1) = ['0'] := by
      intro h
      rw [List.head?_take, if_neg (Nat.succ_ne_zero k)] at h
      exact absurd h hhead
    have htext := realText_chars _ _ [] negative (fun c hc => hds c (List.mem_of_mem_take hc)) htake
      hfirst (fun c hc => hds c (List.mem_of_mem_drop hc)) .none (.inl hdrop) (hsplit.symm ▸ hfit)
    have hexponent : (none : Option Int).getD 0 - ((ds.drop (k + 1)).length : Int) =
        (k : Int) + 1 - ds.length := by
      rw [List.length_drop, Option.getD_none]
      omega
    have hfraction : fractionChars (ds.drop (k + 1)) = '.' :: ds.drop (k + 1) := by
      unfold fractionChars
      rw [if_neg (by simpa using hlong)]
    rw [hsplit, hexponent, hfraction, List.append_nil] at htext
    rw [Nat.sub_eq_zero_of_le hlong.le, List.replicate_zero, List.append_nil,
      if_neg (by simpa using hlong)]
    exact htext
  · -- zeros up to the point, and one after it
    obtain ⟨j, hj⟩ := Nat.exists_eq_add_of_le hshort
    have hzeros : k + 1 - ds.length = j := by omega
    have hvalue : natOfDigits (digitValues (ds ++ List.replicate j '0' ++ ['0'])) =
        natOfDigits (digitValues ds) * 10 ^ (j + 1) := by
      rw [List.append_assoc, ← List.replicate_succ', digitValues_append, natOfDigits_append,
        digitValues_zeros, natOfDigits_zeros, List.length_replicate, Nat.add_zero]
    -- seventeen digits always fit into 64 bits
    have hbound : natOfDigits (digitValues ds) * 10 ^ (j + 1) < 2 ^ 64 := by
      calc natOfDigits (digitValues ds) * 10 ^ (j + 1) ≤ 10 ^ ds.length * 10 ^ (j + 1) := by
            apply Nat.mul_le_mul_right
            rw [← length_digitValues]
            exact (natOfDigits_lt hds.allDigits).le
        _ = 10 ^ (k + 2) := by rw [← Nat.pow_add, show ds.length + (j + 1) = k + 2 by omega]
        _ ≤ 10 ^ 17 := Nat.pow_le_pow_right (by decide) (by omega)
        _ < 2 ^ 64 := by decide
    have hfirst : (ds ++ List.replicate j '0').head? = some '0' →
        ds ++ List.replicate j '0' = ['0'] := by
      intro h
      rw [List.head?_append_of_ne_nil _ hne] at h
      exact absurd h hhead
    have htext := realText_chars (ds ++ List.replicate j '0') ['0'] [] negative
      (digitChars_append hds (digitChars_zeros j)) (List.append_ne_nil_of_left_ne_nil hne _) hfirst
      (digitChars_zeros 1) .none (.inl (by decide)) (hvalue ▸ hbound)
    have hworth : ((natOfDigits (digitValues ds) * 10 ^ (j + 1) : Nat) : ℚ) *
        10 ^ ((none : Option Int).getD 0 - (['0'].length : Int)) =
        natOfDigits (digitValues ds) * 10 ^ ((k : Int) + 1 - ds.length) := by
      have hj' : (k : Int) + 1 - ds.length = (j + 1 : Nat) + ((none : Option Int).getD 0 - 1) := by
        rw [Option.getD_none]
        omega
      rw [hj', zpow_add₀ (by norm_num), zpow_natCast, List.length_singleton]
      push_cast
      ring
    rw [hvalue, hworth, List.append_nil] at htext
    rw [List.take_of_length_le hshort, List.drop_of_length_le hshort, hzeros]
    exact htext

/-- **Every layout is a text of its decimal.** -/
theorem realText_place :
    RealText (Utf8.encodeChars (signChars negative ++ DecimalLayout.json.place ds top)) negative
      (natOfDigits (digitValues ds) * 10 ^ (top + 1 - ds.length)) := by
  have hleast : DecimalLayout.json.leastPositional = -5 := rfl
  have hmost : DecimalLayout.json.mostPositional = 15 := rfl
  unfold DecimalLayout.place
  by_cases hfar : top < DecimalLayout.json.leastPositional ∨ DecimalLayout.json.mostPositional < top
  · rw [if_pos hfar]
    exact realText_exponent negative hds hne hfit DecimalLayout.json
  · rw [if_neg hfar]
    by_cases hbelow : top < 0
    · rw [if_pos hbelow]
      exact realText_below negative hds hne hfit hbelow
    · rw [if_neg hbelow]
      exact realText_among negative hds hne hhead hfit (by omega) (by omega)

end

/-- The zeros at the end of a row are a power of ten. -/
theorem exists_zeros (cs : List Char) :
    ∃ k, cs = (cs.reverse.dropWhile (· == '0')).reverse ++ List.replicate k '0' := by
  have hzeros : cs.reverse.takeWhile (· == '0') =
      List.replicate (cs.reverse.takeWhile (· == '0')).length '0' := by
    apply List.eq_replicate_of_mem
    intro c hc
    simpa using List.mem_takeWhile_imp hc
  refine ⟨(cs.reverse.takeWhile (· == '0')).length, ?_⟩
  rw [← List.reverse_replicate, ← hzeros, ← List.reverse_append, List.takeWhile_append_dropWhile,
    List.reverse_reverse]

/-- **The text of a decimal.** -/
theorem realText_render {d : Decimal} (negative : Bool) (hpos : 0 < d.digits)
    (hfit : d.digits < 2 ^ 64) :
    RealText (Utf8.encodeChars (signChars negative ++ DecimalLayout.json.render d)) negative
      d.worth := by
  have hdigits := digitChars_decimalDigits d.digits
  have hvalue := natOfDigits_decimalDigits d.digits
  have hfirst : (decimalDigits d.digits).head? ≠ some '0' := fun h => by
    have := head?_decimalDigits h
    omega
  unfold DecimalLayout.render
  dsimp only
  obtain ⟨k, hk⟩ := exists_zeros (decimalDigits d.digits)
  generalize ((decimalDigits d.digits).reverse.dropWhile (· == '0')).reverse = significant at hk
  rw [hk] at hdigits hvalue hfirst ⊢
  rw [digitValues_append, natOfDigits_append, digitValues_zeros, natOfDigits_zeros,
    List.length_replicate, Nat.add_zero] at hvalue
  -- zeros alone would make the number zero
  have hne : significant ≠ [] := by
    rintro rfl
    rw [show natOfDigits (digitValues []) = 0 from rfl, Nat.zero_mul] at hvalue
    omega
  have hle : natOfDigits (digitValues significant) ≤ d.digits :=
    hvalue ▸ Nat.le_mul_of_pos_right _ (Nat.pow_pos (by decide))
  have htext := @realText_place significant
    (d.exponent + (significant ++ List.replicate k '0').length - 1) negative
    (fun c hc => hdigits c (List.mem_append_left _ hc)) hne
    (by rwa [List.head?_append_of_ne_nil _ hne] at hfirst) (lt_of_le_of_lt hle hfit)
  have hworth : (natOfDigits (digitValues significant) : ℚ) *
      10 ^ (d.exponent + (significant ++ List.replicate k '0').length - 1 + 1 - significant.length) =
      d.worth := by
    have hexponent : d.exponent + ((significant ++ List.replicate k '0').length : Int) - 1 + 1 -
        significant.length = d.exponent + k := by
      rw [List.length_append, List.length_replicate]
      omega
    have hcast : (d.digits : ℚ) = natOfDigits (digitValues significant) * 10 ^ k := by
      exact_mod_cast hvalue.symm
    unfold Decimal.worth
    rw [hexponent, hcast, zpow_add₀ (by norm_num), zpow_natCast]
    ring
  rwa [hworth] at htext

/-- What the text of a double is worth, without its sign. -/
def writtenWorth (magnitude : Nat) : ℚ :=
  if magnitude = 0 then 0 else (shortestDecimal magnitude).worth

/-- **The text of a double.** -/
theorem realText_text (x : Binary64) :
    RealText (Utf8.encodeChars x.text) x.negative (writtenWorth x.magnitude) := by
  have hsign : x.text = signChars x.negative ++ (if x.magnitude = 0 then ['0', '.', '0']
      else DecimalLayout.json.render (shortestDecimal x.magnitude)) := by
    unfold Binary64.text signChars
    cases x.negative <;> rfl
  rw [hsign]
  unfold writtenWorth
  split
  · have htext := realText_chars ['0'] ['0'] [] x.negative (digitChars_zeros 1) (by decide)
      (fun _ => rfl) (digitChars_zeros 1) .none (.inl (by decide)) (by decide)
    rwa [show natOfDigits (digitValues (['0'] ++ ['0'])) = 0 from rfl, Nat.cast_zero, zero_mul]
      at htext
  · next hne =>
    obtain ⟨hpos, hmost⟩ := shortestDecimal_digits (Nat.pos_of_ne_zero hne)
    exact realText_render x.negative hpos (lt_of_le_of_lt hmost (by decide))

/-! ## What is read back -/

/-- The double of a numeral whose digits fit is that of its decimal. -/
theorem real?_eq {n : Numeral} (h : n.decimal.digits < 2 ^ 64) :
    n.real? = (doubleOfDecimal? n.decimal.digits n.decimal.exponent).map fun magnitude =>
      .real ⟨n.negative, magnitude⟩ := by
  rw [Numeral.real?, significand_eq h]

/-- A numeral with a fraction or an exponent is never read as an integer. -/
theorem number?_of_fractional {n : Numeral} (h : n.isFractional = true) : n.number? = n.real? := by
  refine Numeral.number?_eq_real? fun i hi => ?_
  rw [Numeral.isFractional_eq_false_iff.mpr ⟨hi.fraction, hi.exponent⟩] at h
  cases h

/-- A zero is read as zero at any power of ten. -/
theorem doubleOfDecimal?_zero (e : Int) : doubleOfDecimal? 0 e = some 0 := by
  have hmul : ∀ b, double.mul 0 b = 0 := by
    intro b
    rw [BinaryFormat.mul, show double.units 0 = 0 from rfl, Nat.zero_mul, round_zero]
  have hdiv : ∀ b, double.div 0 b = 0 := by
    intro b
    rw [BinaryFormat.div, show double.units 0 = 0 from rfl, round_zero]
  unfold doubleOfDecimal?
  simp only [round_zero, hmul, hdiv]
  split
  · exact if_pos trivial
  · have hfinite : 0 < double.infinite := by decide
    simp [hfinite]

/-- A zero keeps its sign. -/
theorem RealText.zero {bs : List UInt8} {negative : Bool} (h : RealText bs negative 0) :
    ∃ n, NumeralText bs n ∧ n.number? = some (.real ⟨negative, 0⟩) := by
  obtain ⟨n, htext, rfl, hreal, hfit, hworth⟩ := h
  have hzero : n.decimal.digits = 0 := by
    have hpow : (10 : ℚ) ^ n.decimal.exponent ≠ 0 := zpow_ne_zero _ (by norm_num)
    exact_mod_cast (mul_eq_zero.mp hworth).resolve_right hpow
  refine ⟨n, htext, ?_⟩
  rw [number?_of_fractional hreal, real?_eq hfit, hzero, doubleOfDecimal?_zero]
  rfl

/-- **A text that is worth a moderate number** is read as a double near to it. -/
theorem RealText.near {bs : List UInt8} {negative : Bool} {x : ℚ} (h : RealText bs negative x)
    (hleast : 1 / 2 ^ 160 ≤ x) (hmost : x ≤ 2 ^ 160) :
    ∃ n magnitude, NumeralText bs n ∧ n.number? = some (.real ⟨negative, magnitude⟩) ∧
      magnitude < double.infinite ∧ Near 3 (double.worth magnitude) x := by
  obtain ⟨n, htext, rfl, hreal, hfit, rfl⟩ := h
  have hpos : 0 < n.decimal.digits := by
    apply Nat.pos_of_ne_zero
    intro hzero
    have hnone : n.decimal.worth = 0 := by
      rw [Decimal.worth, hzero, Nat.cast_zero, zero_mul]
    rw [hnone] at hleast
    exact absurd hleast (by norm_num)
  obtain ⟨magnitude, hread, hfinite, hnear⟩ := exists_near_double hpos hfit hleast hmost
  refine ⟨n, magnitude, htext, ?_, hfinite, hnear⟩
  rw [number?_of_fractional hreal, real?_eq hfit, hread]
  rfl

/-- **The text of an integer.** -/
theorem numeralText_integer (i : Int) :
    NumeralText (Utf8.encodeChars (writtenInt i))
      ⟨decide (i < 0), digitValues (decimalDigits i.natAbs), [], none⟩ := by
  have htext := numeralText_chars (decimalDigits i.natAbs) [] [] (decide (i < 0))
    (digitChars_decimalDigits i.natAbs) (decimalDigits_ne_nil _)
    (fun h => by rw [head?_decimalDigits h]; rfl) (digitChars_zeros 0) .none
  have hchars : signChars (decide (i < 0)) ++ (decimalDigits i.natAbs ++ fractionChars [] ++ []) =
      writtenInt i := by
    rw [List.append_nil, show fractionChars [] = [] from rfl, List.append_nil]
    unfold signChars writtenInt
    by_cases hi : i < 0 <;> simp [hi]
  rwa [hchars] at htext

/-- **An integer that 64 bits hold is read back.** -/
theorem number?_integer {i : Int} (hleast : -2 ^ 63 ≤ i) (hmost : i < 2 ^ 64) :
    (⟨decide (i < 0), digitValues (decimalDigits i.natAbs), [], none⟩ : Numeral).number? =
      some (.integer i) := by
  have hvalue : natOfDigits (digitValues (decimalDigits i.natAbs)) = i.natAbs :=
    natOfDigits_decimalDigits i.natAbs
  refine Numeral.IsInteger.number? ⟨rfl, rfl, ?_, fun hnegative => ?_, hleast, hmost⟩
  · rw [hvalue, signed]
    by_cases hi : i < 0
    · rw [if_pos (decide_eq_true hi)]
      omega
    · rw [if_neg (by simpa using hi)]
      omega
  · have hi : i < 0 := of_decide_eq_true hnegative
    omega

end ClusterClient.Json
