import ClusterClient.Json.Token

/-!
# Splitting a text into tokens

An automaton reads the bytes one by one. A numeral ends at the first byte that does not belong to
it, and that byte is then read as one between tokens.

* `Lexeme`: what has been read of a token;
* `Lexeme.step`: the effect of one byte;
* `tokens`: the tokens of a byte string.
-/

namespace ClusterClient.Json

/-- How far a numeral has been read. -/
inductive NumeralPhase where
  | sign
  | zero
  | whole
  | point
  | fraction
  | mark
  | markSign (negative : Bool)
  | exponent (negative : Bool)
  deriving DecidableEq, Repr

def NumeralPhase.mayEnd : NumeralPhase → Bool
  | .zero | .whole | .fraction | .exponent _ => true
  | _ => false

/-- What has been read of a token. Pieces of a string are kept in reverse order. -/
inductive Lexeme where
  /-- Between tokens. -/
  | idle
  /-- Inside a word, whose missing letters are given. -/
  | word (missing : List UInt8) (s : Scalar)
  | numeral (n : Numeral) (phase : NumeralPhase)
  | string (pieces : List Piece)
  /-- After a backslash. -/
  | escape (pieces : List Piece)
  /-- Inside a numbered escape, with the digits so far and how many are missing. -/
  | unit (pieces : List Piece) (value missing : Nat)
  /-- After a flaw. -/
  | stuck
  deriving DecidableEq, Repr

def digit? (b : UInt8) : Option Nat :=
  if 48 ≤ b.toNat ∧ b.toNat ≤ 57 then some (b.toNat - 48) else none

/-- The value of a hexadecimal ASCII digit, in either case. -/
def hexDigit? (b : UInt8) : Option Nat :=
  let n := b.toNat
  if 48 ≤ n ∧ n ≤ 57 then some (n - 48)
  else if 97 ≤ n ∧ n ≤ 102 then some (n - 87)
  else if 65 ≤ n ∧ n ≤ 70 then some (n - 55)
  else none

/-- What the letter after a backslash stands for, the `u` apart. -/
def escapeCode? (b : UInt8) : Option Nat :=
  -- quote, backslash and slash stand for themselves
  if b = 34 then some 34
  else if b = 92 then some 92
  else if b = 47 then some 47
  -- the letters b, f, n, r and t stand for control characters
  else if b = 98 then some 8
  else if b = 102 then some 12
  else if b = 110 then some 10
  else if b = 114 then some 13
  else if b = 116 then some 9
  else none

/-- Whether a byte may stand between tokens: space, line feed, tab, carriage return. -/
def isSpace (b : UInt8) : Bool :=
  b = 32 || b = 10 || b = 9 || b = 13

/-! ## The tables

What the tables hold, by characters instead of bytes, so that a reader need not know the codes. -/

/-- The bytes that may stand between tokens, by their codes. -/
theorem isSpace_iff {b : UInt8} : isSpace b = true ↔ b = 32 ∨ b = 10 ∨ b = 9 ∨ b = 13 := by
  simp [isSpace, or_assoc]

/-- The bytes between tokens are four characters. -/
theorem isSpace_iff_mem {b : UInt8} :
    isSpace b = true ↔ b.toNat ∈ [' ', '\n', '\t', '\r'].map Char.toNat := by
  rw [isSpace_iff]
  simp [← UInt8.toNat_inj]

/-- A hexadecimal digit is one of the sixteen in lower or in upper case. -/
theorem hexDigit?_eq_some_iff {b : UInt8} {n : Nat} :
    hexDigit? b = some n ↔
      n < 16 ∧ (b.toNat = n.digitChar.toNat ∨ b.toNat = n.digitChar.toUpper.toNat) := by
  have hlower : ∀ d : Fin 16,
      d.val.digitChar.toNat = if d.val < 10 then d.val + 48 else d.val + 87 := by decide
  have hupper : ∀ d : Fin 16,
      d.val.digitChar.toUpper.toNat = if d.val < 10 then d.val + 48 else d.val + 55 := by decide
  have hdigit : hexDigit? b = some n ↔
      n < 16 ∧ (b.toNat = (if n < 10 then n + 48 else n + 87) ∨
        b.toNat = if n < 10 then n + 48 else n + 55) := by
    unfold hexDigit?
    grind
  rw [hdigit]
  refine and_congr_right fun hn => ?_
  rw [hlower ⟨n, hn⟩, hupper ⟨n, hn⟩]

/-- The short escapes: the letters after the backslash, each with what it stands for. -/
def shortEscapes : List (Char × Char) :=
  "\"\\/bfnrt".toList.zip "\"\\/\x08\x0c\n\r\t".toList

/-- What follows a backslash is read by the short escapes and nothing else. -/
theorem escapeCode?_eq_some_iff {b : UInt8} {n : Nat} :
    escapeCode? b = some n ↔ ∃ e ∈ shortEscapes, b.toNat = e.1.toNat ∧ n = e.2.toNat := by
  have hcodes : shortEscapes.map (fun e => (e.1.toNat, e.2.toNat)) =
      [(34, 34), (92, 92), (47, 47), (98, 8), (102, 12), (110, 10), (114, 13), (116, 9)] := by
    decide
  have hlisted : (∃ e ∈ shortEscapes, b.toNat = e.1.toNat ∧ n = e.2.toNat) ↔
      (b.toNat, n) ∈ shortEscapes.map fun e => (e.1.toNat, e.2.toNat) := by
    simp only [List.mem_map, Prod.mk.injEq, eq_comm]
  rw [hlisted, hcodes]
  simp only [escapeCode?, ← UInt8.toNat_inj, UInt8.reduceToNat, List.mem_cons, List.not_mem_nil,
    Prod.mk.injEq, or_false]
  grind

/-! ## The automaton -/

namespace Lexeme

/-- The tokens that a byte completes, and what it leaves unfinished. -/
abbrev Step := List Token × Lexeme

def flaw : Step := ([.flaw], .stuck)

def begin (b : UInt8) : Step :=
  if isSpace b then ([], idle)
  -- brackets, braces, comma and colon are tokens by themselves
  else if b = 91 then ([.openArray], idle)
  else if b = 93 then ([.closeArray], idle)
  else if b = 123 then ([.openObject], idle)
  else if b = 125 then ([.closeObject], idle)
  else if b = 44 then ([.comma], idle)
  else if b = 58 then ([.colon], idle)
  -- a quote opens a string
  else if b = 34 then ([], string [])
  -- the first letters of null, true and false
  else if b = 110 then ([], word [117, 108, 108] .null)
  else if b = 116 then ([], word [114, 117, 101] (.bool true))
  else if b = 102 then ([], word [97, 108, 115, 101] (.bool false))
  -- a numeral begins with a minus or a digit
  else if b = 45 then ([], numeral ⟨true, [], [], none⟩ .sign)
  else match digit? b with
    | some 0 => ([], numeral ⟨false, [0], [], none⟩ .zero)
    | some d => ([], numeral ⟨false, [d], [], none⟩ .whole)
    | none => flaw

/-- The numeral with one more byte, if the byte belongs to it. -/
def extend? (n : Numeral) (phase : NumeralPhase) (b : UInt8) : Option (Numeral × NumeralPhase) :=
  match phase, digit? b with
  | .sign, some d => some ({ n with whole := [d] }, if d = 0 then .zero else .whole)
  | .whole, some d => some ({ n with whole := n.whole ++ [d] }, .whole)
  | .point, some d => some ({ n with fraction := [d] }, .fraction)
  | .fraction, some d => some ({ n with fraction := n.fraction ++ [d] }, .fraction)
  | .mark, some d => some ({ n with exponent := some d }, .exponent false)
  | .markSign negative, some d | .exponent negative, some d =>
    let before := n.exponent.getD 0 * 10
    some ({ n with exponent := some (if negative then before - d else before + d) },
      .exponent negative)
  -- after the whole part a point or an exponent mark may follow
  | .zero, none | .whole, none =>
    if b = 46 then some (n, .point)
    else if b = 101 ∨ b = 69 then some (n, .mark)
    else none
  | .fraction, none => if b = 101 ∨ b = 69 then some (n, .mark) else none
  -- directly after the mark, a sign
  | .mark, none =>
    if b = 43 then some (n, .markSign false)
    else if b = 45 then some (n, .markSign true)
    else none
  | _, _ => none

/-- Reads a byte inside a numeral. Two digits never begin with a zero. -/
def stepNumeral (n : Numeral) (phase : NumeralPhase) (b : UInt8) : Step :=
  match extend? n phase b with
  | some (more, next) => ([], numeral more next)
  | none =>
    if phase.mayEnd ∧ ¬(phase = .zero ∧ (digit? b).isSome) then
      (.scalar (.number n) :: (begin b).1, (begin b).2)
    else flaw

def stepString (pieces : List Piece) (b : UInt8) : Step :=
  if b = 34 then ([.scalar (.string pieces.reverse)], idle)
  else if b = 92 then ([], escape pieces)
  else if b.toNat < 32 then flaw
  else ([], string (.byte b :: pieces))

def stepEscape (pieces : List Piece) (b : UInt8) : Step :=
  if b = 117 then ([], unit pieces 0 4)
  else match escapeCode? b with
    | some n => ([], string (.codeUnit n :: pieces))
    | none => flaw

def stepUnit (pieces : List Piece) (value missing : Nat) (b : UInt8) : Step :=
  match hexDigit? b with
  | some d =>
    let value := value * 16 + d
    if missing ≤ 1 then ([], string (.codeUnit value :: pieces))
    else ([], unit pieces value (missing - 1))
  | none => flaw

def stepWord (missing : List UInt8) (s : Scalar) (b : UInt8) : Step :=
  match missing with
  | [] => flaw
  | [c] => if b = c then ([.scalar s], idle) else flaw
  | c :: cs => if b = c then ([], word cs s) else flaw

/-- The effect of one byte. -/
def step (l : Lexeme) (b : UInt8) : Step :=
  match l with
  | idle => begin b
  | word missing s => stepWord missing s b
  | numeral n phase => stepNumeral n phase b
  | string pieces => stepString pieces b
  | escape pieces => stepEscape pieces b
  | unit pieces value missing => stepUnit pieces value missing b
  | stuck => ([], stuck)

/-- The tokens that the end of the text completes. -/
def finish : Lexeme → List Token
  | idle | stuck => []
  | numeral n phase => [if phase.mayEnd then .scalar (.number n) else .flaw]
  | _ => [.flaw]

/-- The tokens of the rest of a text. -/
def tokens (l : Lexeme) : List UInt8 → List Token
  | [] => l.finish
  | b :: bs => (l.step b).1 ++ tokens (l.step b).2 bs

/-- After a sign or the point a numeral goes on with a digit only. -/
theorem extend?_of_none {b : UInt8} (h : digit? b = none) (n : Numeral) {phase : NumeralPhase}
    (hphase : phase = .sign ∨ phase = .point ∨ ∃ negative, phase = .markSign negative) :
    extend? n phase b = none := by
  rcases hphase with rfl | rfl | ⟨negative, rfl⟩ <;> simp only [extend?, h]

end Lexeme

/-- The tokens of a byte string, up to the first flaw. -/
def tokens (bytes : List UInt8) : List Token :=
  Lexeme.idle.tokens bytes

end ClusterClient.Json
