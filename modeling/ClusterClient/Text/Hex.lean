/-!
# Hexadecimal digits

* `hexDigit`: the lower-case digit of a nibble;
* `hexValue?`: the value of a digit in either case;
* `hexText`: a number in lower case, padded to a width.
-/

namespace ClusterClient

/-- The lower-case hexadecimal digit of `n`, which is taken modulo 16. -/
def hexDigit (n : Nat) : Char :=
  let d := n % 16
  if d < 10 then Char.ofNat (48 + d) else Char.ofNat (87 + d)

/-- The value of a hexadecimal digit, in either case. -/
def hexValue? (c : Char) : Option Nat :=
  let n := c.toNat
  if 48 ≤ n ∧ n ≤ 57 then some (n - 48)
  else if 97 ≤ n ∧ n ≤ 102 then some (n - 87)
  else if 65 ≤ n ∧ n ≤ 70 then some (n - 55)
  else none

/-- The last `width` hexadecimal digits of `n`, the most significant first. -/
def hexText (n : Nat) : Nat → List Char
  | 0 => []
  | width + 1 => hexText (n / 16) width ++ [hexDigit n]

/-- The number that a row of hexadecimal digits denotes, read on from `start`. -/
def hexNumber? (start : Nat) : List Char → Option Nat
  | [] => some start
  | c :: cs => (hexValue? c).bind fun d => hexNumber? (start * 16 + d) cs

/-- The value of the digit of a nibble is the nibble. -/
theorem hexValue?_hexDigit (n : Nat) : hexValue? (hexDigit n) = some (n % 16) := by
  have all : ∀ d : Fin 16, hexValue? (hexDigit d.val) = some d.val := by decide
  have h := all ⟨n % 16, Nat.mod_lt n (by decide)⟩
  simpa [hexDigit] using h

theorem length_hexText (n width : Nat) : (hexText n width).length = width := by
  induction width generalizing n with
  | zero => rfl
  | succ width ih => rw [hexText, List.length_append, ih, List.length_singleton]

/-- A row of digits is read on where another one ends. -/
theorem hexNumber?_append (start : Nat) (cs ds : List Char) :
    hexNumber? start (cs ++ ds) = (hexNumber? start cs).bind (hexNumber? · ds) := by
  induction cs generalizing start with
  | nil => rfl
  | cons c cs ih =>
    rw [List.cons_append, hexNumber?, hexNumber?, Option.bind_assoc]
    exact congrArg _ (funext fun d => ih (start * 16 + d))

/-- Written digits are read as the number, as far as the width holds it. -/
theorem hexNumber?_hexText (start n width : Nat) :
    hexNumber? start (hexText n width) =
      some (start * Nat.pow 16 width + n % Nat.pow 16 width) := by
  show _ = some (start * 16 ^ width + n % 16 ^ width)
  induction width generalizing n with
  | zero => simp [hexText, hexNumber?, Nat.mod_one]
  | succ width ih =>
    have hlast : n % 16 ^ (width + 1) = n / 16 % 16 ^ width * 16 + n % 16 := by
      rw [Nat.pow_succ', Nat.mod_mul]
      omega
    rw [hexText, hexNumber?_append, ih, Option.bind_some, hexNumber?, hexValue?_hexDigit,
      Option.bind_some, hexNumber?, hlast, Nat.pow_succ, ← Nat.mul_assoc]
    congr 1
    omega

end ClusterClient
