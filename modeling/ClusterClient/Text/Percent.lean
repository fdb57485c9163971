import ClusterClient.Text.Hex

/-!
# Percent encoding

A URL segment keeps letters, digits and the four marks that are reserved for nothing; every
other byte of the UTF-8 form is written as a percent sign and two upper-case digits.
-/

namespace ClusterClient

/-- Whether a byte stands for itself: `A-Z a-z 0-9 - . _ ~`. -/
def isUnreserved (b : UInt8) : Bool :=
  let n := b.toNat
  (65 ≤ n ∧ n ≤ 90) ∨ (97 ≤ n ∧ n ≤ 122) ∨ (48 ≤ n ∧ n ≤ 57) ∨ n = 45 ∨ n = 46 ∨ n = 95 ∨ n = 126

def percentByte (b : UInt8) : List Char :=
  if isUnreserved b then [Char.ofNat b.toNat]
  else ['%', (hexDigit (b.toNat / 16)).toUpper, (hexDigit b.toNat).toUpper]

/-- The bytes of a text as one URL segment. -/
def percentEncode (bytes : List UInt8) : List Char :=
  bytes.flatMap percentByte

/-- The bytes of a segment; `none` where a percent sign lacks its two digits or a character is
not ASCII. -/
def percentDecode? : List Char → Option (List UInt8)
  | [] => some []
  | '%' :: a :: b :: cs => do
    let high ← hexValue? a
    let low ← hexValue? b
    return (high * 16 + low).toUInt8 :: (← percentDecode? cs)
  | c :: cs =>
    if c = '%' ∨ 128 ≤ c.toNat then none
    else (percentDecode? cs).map (c.toNat.toUInt8 :: ·)

/-- An ASCII character that is no percent sign stands for itself. -/
theorem percentDecode?_of_ne {c : Char} (hpercent : c ≠ '%') (hascii : c.toNat < 128)
    (cs : List Char) :
    percentDecode? (c :: cs) = (percentDecode? cs).map (c.toNat.toUInt8 :: ·) := by
  rw [percentDecode?, if_neg]
  · rintro (h | h)
    · exact hpercent h
    · omega
  · rintro a b ds rfl
    exact absurd rfl hpercent

/-- A byte that stands for itself is ASCII and no percent sign. -/
theorem toNat_of_isUnreserved {b : UInt8} (h : isUnreserved b = true) :
    b.toNat < 128 ∧ b.toNat ≠ 37 := by
  simp only [isUnreserved, decide_eq_true_eq] at h
  omega

/-- The value of an upper-case digit. -/
theorem hexValue?_toUpper_hexDigit (n : Nat) :
    hexValue? (hexDigit n).toUpper = some (n % 16) := by
  have all : ∀ d : Fin 16, hexValue? (hexDigit d.val).toUpper = some d.val := by decide
  have h := all ⟨n % 16, Nat.mod_lt n (by decide)⟩
  simpa [hexDigit] using h

/-- An encoded byte is read as that byte. -/
theorem percentDecode?_percentByte (b : UInt8) (cs : List Char) :
    percentDecode? (percentByte b ++ cs) = (percentDecode? cs).map (b :: ·) := by
  unfold percentByte
  split
  · next hb =>
    obtain ⟨hascii, hpercent⟩ := toNat_of_isUnreserved hb
    have hcode : (Char.ofNat b.toNat).toNat = b.toNat := by
      have hvalid : b.toNat.isValidChar := .inl (by omega)
      rw [Char.ofNat, dif_pos hvalid]
      rfl
    have hne : Char.ofNat b.toNat ≠ '%' := by
      intro heq
      rw [heq] at hcode
      exact hpercent hcode.symm
    rw [List.singleton_append, percentDecode?_of_ne hne (by omega), hcode]
    simp
  · have hb : b.toNat / 16 % 16 * 16 + b.toNat % 16 = b.toNat := by
      have := b.toNat_lt
      omega
    simp only [List.cons_append, List.nil_append, percentDecode?, hexValue?_toUpper_hexDigit,
      Option.bind_eq_bind, Option.bind_some, hb]
    cases percentDecode? cs <;> simp

/-- **Decoding a segment gives back its bytes.** -/
theorem percentDecode?_percentEncode (bytes : List UInt8) :
    percentDecode? (percentEncode bytes) = some bytes := by
  induction bytes with
  | nil => rfl
  | cons b bytes ih =>
    rw [percentEncode, List.flatMap_cons, percentDecode?_percentByte, ← percentEncode, ih]
    rfl

end ClusterClient
