import Mathlib.Algebra.Group.Nat.Defs
import Mathlib.Data.List.Induction
import ClusterClient.Numeric.Shortest
import ClusterClient.Proofs.Numerals
import ClusterClient.Proofs.Utf8

/-!
# Decimal digits

Numbers are written as rows of digit characters and read as rows of digit values. Both directions
meet here: what a row of digits is worth, how rows are put together, and the row that is written for
a number.

* **`digitValues`**: the values of a row of characters.
* **`natOfDigits_append`**, **`natOfDigits_lt`**: what rows are worth.
* **`natOfDigits_decimalDigits`**, **`head?_decimalDigits`**: the row that is written for a number
  is worth that number, and begins with a zero only for zero.
* **`filled`**: the row with zeros in front, worth the same.
-/

namespace ClusterClient

open Json

/-- The values of digit characters. -/
def digitValues (cs : List Char) : List Nat :=
  cs.map fun c => c.toNat - 48

/-- All characters are digits. -/
def DigitChars (cs : List Char) : Prop :=
  ∀ c ∈ cs, c.isDigit = true

theorem isDigit_iff {c : Char} : c.isDigit = true ↔ 48 ≤ c.toNat ∧ c.toNat ≤ 57 := by
  simp only [Char.isDigit, Bool.and_eq_true, decide_eq_true_eq, ge_iff_le, UInt32.le_iff_toNat_le]
  rfl

theorem digitChars_append {cs ds : List Char} (hc : DigitChars cs) (hd : DigitChars ds) :
    DigitChars (cs ++ ds) :=
  List.forall_mem_append.mpr ⟨hc, hd⟩

theorem digitChars_zeros (n : Nat) : DigitChars (List.replicate n '0') := by
  intro c hc
  obtain rfl := List.eq_of_mem_replicate hc
  decide

theorem digitValues_append (cs ds : List Char) :
    digitValues (cs ++ ds) = digitValues cs ++ digitValues ds :=
  List.map_append

theorem digitValues_zeros (n : Nat) : digitValues (List.replicate n '0') = List.replicate n 0 :=
  List.map_replicate

theorem length_digitValues (cs : List Char) : (digitValues cs).length = cs.length :=
  List.length_map _

/-- The values of digit characters are digits. -/
theorem DigitChars.allDigits {cs : List Char} (h : DigitChars cs) : AllDigits (digitValues cs) := by
  intro d hd
  obtain ⟨c, hc, rfl⟩ := List.mem_map.mp hd
  have hrange := isDigit_iff.mp (h c hc)
  omega

theorem DigitChars.digits {cs : List Char} (h : DigitChars cs) (hne : cs ≠ []) :
    Digits (digitValues cs) :=
  ⟨fun hnil => hne (List.map_eq_nil_iff.mp hnil), h.allDigits⟩

theorem Utf8.encodeChars_append (cs ds : List Char) :
    Utf8.encodeChars (cs ++ ds) = Utf8.encodeChars cs ++ Utf8.encodeChars ds :=
  List.flatMap_append

/-- A digit is written as one byte. -/
theorem encodeChars_digits {cs : List Char} (h : DigitChars cs) :
    Utf8.encodeChars cs = digitBytes (digitValues cs) := by
  induction cs with
  | nil => rfl
  | cons c cs ih =>
    obtain ⟨hc, hcs⟩ := List.forall_mem_cons.mp h
    have hrange := isDigit_iff.mp hc
    have hbyte : (UInt8.ofNat c.toNat).toNat = c.toNat := Utf8.toNat_ofNat_of_lt (by omega)
    have hone := Utf8.encodeChar_one (a := UInt8.ofNat c.toNat) (by omega)
    rw [hbyte, Char.ofNat_toNat] at hone
    have hcode : 48 + (c.toNat - 48) = c.toNat := by omega
    show String.utf8EncodeChar c ++ Utf8.encodeChars cs =
      (48 + (c.toNat - 48)).toUInt8 :: digitBytes (digitValues cs)
    rw [hone, ih hcs, hcode]
    rfl

/-! ## What rows are worth -/

/-- A row of digits counts what comes before another one by a power of ten. -/
theorem natOfDigits_append (ds es : List Nat) :
    natOfDigits (ds ++ es) = natOfDigits ds * 10 ^ es.length + natOfDigits es := by
  induction es using List.reverseRecOn with
  | nil => simp [natOfDigits]
  | append_singleton es d ih =>
    rw [← List.append_assoc, natOfDigits_concat, ih, natOfDigits_concat, List.length_append,
      List.length_singleton, Nat.pow_succ, Nat.add_mul, Nat.mul_assoc, Nat.add_assoc]

theorem natOfDigits_zeros (n : Nat) : natOfDigits (List.replicate n 0) = 0 := by
  induction n with
  | zero => rfl
  | succ n ih => rw [List.replicate_succ', natOfDigits_concat, ih]

/-- A row of digits is less than the power of ten of its length. -/
theorem natOfDigits_lt {ds : List Nat} (h : AllDigits ds) : natOfDigits ds < 10 ^ ds.length := by
  induction ds using List.reverseRecOn with
  | nil => decide
  | append_singleton ds d ih =>
    obtain ⟨hds, hd⟩ := List.forall_mem_append.mp h
    have hbelow := ih hds
    have hdigit : d < 10 := hd d List.mem_cons_self
    rw [natOfDigits_concat, List.length_append, List.length_singleton, Nat.pow_succ]
    omega

/-- The number of a row of digit characters, as the library computes it. -/
theorem natOfDigits_digitValues (cs : List Char) :
    natOfDigits (digitValues cs) = Nat.ofDigitChars 10 cs 0 := by
  rw [natOfDigits, digitValues, Nat.ofDigitChars, List.foldl_map]
  congr 1
  funext v c
  rw [Nat.mul_comm]
  rfl

/-! ## The row that is written -/

theorem digitChars_decimalDigits (n : Nat) : DigitChars (decimalDigits n) :=
  fun _ hc => Nat.isDigit_of_mem_toDigits (by decide) (by decide) hc

theorem decimalDigits_ne_nil (n : Nat) : decimalDigits n ≠ [] :=
  List.ne_nil_of_length_pos Nat.length_toDigits_pos

/-- **The row that is written for a number is worth it.** -/
theorem natOfDigits_decimalDigits (n : Nat) : natOfDigits (digitValues (decimalDigits n)) = n := by
  rw [natOfDigits_digitValues]
  exact Nat.ofDigitChars_toDigits (by decide) (by decide)

/-- Only zero is written with a zero in front. -/
theorem head?_decimalDigits {n : Nat} (h : (decimalDigits n).head? = some '0') : n = 0 := by
  induction n using Nat.strongRecOn with
  | ind n ih =>
    by_cases hn : n < 10
    · have hone : decimalDigits n = [Nat.digitChar n] := Nat.toDigits_of_lt_base hn
      rw [hone] at h
      have all : ∀ d : Fin 10, Nat.digitChar d.val = '0' → d.val = 0 := by decide
      exact all ⟨n, hn⟩ (Option.some.inj h)
    · have hmore : decimalDigits n = decimalDigits (n / 10) ++ [Nat.digitChar (n % 10)] :=
        Nat.toDigits_of_base_le (by decide) (by omega)
      obtain ⟨c, cs, hfirst⟩ := List.exists_cons_of_ne_nil (decimalDigits_ne_nil (n / 10))
      have hhead : (decimalDigits (n / 10)).head? = some '0' := by
        rw [hmore, hfirst] at h
        rw [hfirst]
        exact h
      have hzero := ih (n / 10) (by omega) hhead
      omega

/-- A number has at most so many digits exactly if it is below the power of ten. -/
theorem length_decimalDigits_le {n k : Nat} (hk : 0 < k) :
    (decimalDigits n).length ≤ k ↔ n < 10 ^ k :=
  Nat.length_toDigits_le_iff (by decide) hk

/-! ## Rows filled up with zeros -/

/-- The row of a number, filled up with zeros in front. -/
def filled (width n : Nat) : List Char :=
  List.replicate (width - (decimalDigits n).length) '0' ++ decimalDigits n

theorem digitChars_filled (width n : Nat) : DigitChars (filled width n) :=
  digitChars_append (digitChars_zeros _) (digitChars_decimalDigits n)

theorem filled_ne_nil (width n : Nat) : filled width n ≠ [] :=
  List.append_ne_nil_of_right_ne_nil _ (decimalDigits_ne_nil n)

/-- **Zeros in front do not count.** -/
theorem natOfDigits_filled (width n : Nat) : natOfDigits (digitValues (filled width n)) = n := by
  unfold filled
  rw [digitValues_append, natOfDigits_append, digitValues_zeros, natOfDigits_zeros,
    natOfDigits_decimalDigits, Nat.zero_mul, Nat.zero_add]

/-- A number that fits into the width is filled up to it. -/
theorem length_filled {width n : Nat} (hwidth : 0 < width) (h : n < 10 ^ width) :
    (filled width n).length = width := by
  have hlength := (length_decimalDigits_le hwidth).mpr h
  unfold filled
  rw [List.length_append, List.length_replicate]
  omega

end ClusterClient
