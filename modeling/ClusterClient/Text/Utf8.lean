/-!
# UTF-8

A byte string is read by an automaton that holds at most one unfinished character. What it
reports is a character or a *flaw*: a longest run of bytes that begins some character and cannot
be continued to it, or a byte that begins none.

* `scan`: characters and flaws in order;
* `decode?`: the text, if nothing is flawed;
* `decodeLossy`: the text with each flaw replaced by U+FFFD;
* `encode`: the bytes of a text.
-/

namespace ClusterClient.Utf8

/-- A character whose first bytes have been read: the bits so far, how many bytes are missing,
and the range of the next one, which excludes overlong forms, surrogates and what lies beyond
U+10FFFF. -/
structure Unfinished where
  bits : Nat
  missing : Nat
  least : Nat
  greatest : Nat
  deriving DecidableEq, Repr

/-- What a byte at the start of a character means: a character of its own, the start of a longer
one, or neither. -/
inductive Start where
  | ascii (c : Char)
  | lead (u : Unfinished)
  | flaw
  deriving DecidableEq

def start (b : UInt8) : Start :=
  let n := b.toNat
  if n < 0x80 then .ascii (Char.ofNat n)
  -- bytes that only continue a character, and the leads of overlong pairs
  else if n < 0xC2 then .flaw
  else if n < 0xE0 then .lead ⟨n - 0xC0, 1, 0x80, 0xBF⟩
  -- three bytes: nothing overlong after E0, no surrogate after ED
  else if n = 0xE0 then .lead ⟨0, 2, 0xA0, 0xBF⟩
  else if n = 0xED then .lead ⟨0xD, 2, 0x80, 0x9F⟩
  else if n < 0xF0 then .lead ⟨n - 0xE0, 2, 0x80, 0xBF⟩
  -- four bytes: nothing overlong after F0, nothing beyond U+10FFFF after F4
  else if n = 0xF0 then .lead ⟨0, 3, 0x90, 0xBF⟩
  else if n < 0xF4 then .lead ⟨n - 0xF0, 3, 0x80, 0xBF⟩
  else if n = 0xF4 then .lead ⟨4, 3, 0x80, 0x8F⟩
  else .flaw

/-- Reads one byte between characters: what is reported, and the character left unfinished. -/
def begin (b : UInt8) : List (Option Char) × Option Unfinished :=
  match start b with
  | .ascii c => ([some c], none)
  | .lead u => ([], some u)
  | .flaw => ([none], none)

/-- Reads one byte. A byte that does not continue the unfinished character makes a flaw of it
and is read as a first byte. -/
def step (b : UInt8) : Option Unfinished → List (Option Char) × Option Unfinished
  | none => begin b
  | some u =>
    let n := b.toNat
    if u.least ≤ n ∧ n ≤ u.greatest then
      let bits := u.bits * 64 + (n - 0x80)
      if u.missing = 1 then ([some (Char.ofNat bits)], none)
      else ([], some ⟨bits, u.missing - 1, 0x80, 0xBF⟩)
    else
      let (out, rest) := begin b
      (none :: out, rest)

/-- The characters and flaws of a byte string that continues an unfinished character. -/
def scanFrom (u : Option Unfinished) : List UInt8 → List (Option Char)
  | [] => if u.isSome then [none] else []
  | b :: bs => (step b u).1 ++ scanFrom (step b u).2 bs

/-- The characters of a byte string, with `none` for each flaw. -/
def scan (bytes : List UInt8) : List (Option Char) :=
  scanFrom none bytes

def collect? : List (Option Char) → Option (List Char)
  | [] => some []
  | none :: _ => none
  | some c :: cs => (collect? cs).map (c :: ·)

/-- The text of well-formed UTF-8. -/
def decode? (bytes : List UInt8) : Option String :=
  (collect? (scan bytes)).map String.ofList

/-- The text of a byte string, with U+FFFD for each flaw. -/
def decodeLossy (bytes : List UInt8) : String :=
  String.ofList ((scan bytes).map (·.getD '\uFFFD'))

/-- The UTF-8 form of a list of characters. -/
def encodeChars (cs : List Char) : List UInt8 :=
  cs.flatMap String.utf8EncodeChar

def encode (s : String) : List UInt8 :=
  encodeChars s.toList

/-- Text that decodes strictly decodes to itself lossily. -/
theorem decodeLossy_of_decode? {bytes : List UInt8} {s : String} (h : decode? bytes = some s) :
    decodeLossy bytes = s := by
  have key : ∀ (xs : List (Option Char)) (cs : List Char), collect? xs = some cs →
      xs.map (·.getD '\uFFFD') = cs := by
    intro xs
    induction xs with
    | nil => intro cs h; simp_all [collect?]
    | cons x xs ih =>
      intro cs h
      cases x with
      | none => simp [collect?] at h
      | some c =>
        obtain ⟨rest, hrest, rfl⟩ := Option.map_eq_some_iff.1 h
        simp [ih rest hrest]
  obtain ⟨cs, hcs, rfl⟩ := Option.map_eq_some_iff.1 h
  rw [decodeLossy, key _ _ hcs]

end ClusterClient.Utf8
