import ClusterClient.Text.Utf8

/-!
# UTF-8 read back

The automaton of `Utf8.scan` accepts exactly the byte strings that `Utf8.encode` produces, and reads
from each of them the text that it was made of.

## The architecture

* **`scanFrom_encodeChar`**: the bytes of a character are read as this character, whatever follows.
  The bytes of one character therefore never begin those of another (`encodeChar_append_inj`).
* **`spelled`**: where the bytes of a character lie, so that they do not mix with others.
* **`exists_char`**: the converse. Where the automaton reports no flaw, the next bytes are those of
  a character.
* **`decode?_eq_some_iff`**: reading undoes writing, and nothing else is read.
-/

namespace ClusterClient.Utf8

/-! ## From characters to bytes and back -/

/-- The value of a byte that continues a character, by its six low bits. -/
theorem toNat_continuation (n : Nat) : (UInt8.ofNat (n % 64 + 128)).toNat = n % 64 + 128 := by
  rw [UInt8.toNat_ofNat']
  omega

/-- The first byte of three: nothing overlong after E0 and no surrogate after ED. -/
theorem start_of_three {b : UInt8} (hleast : 0xE0 ≤ b.toNat) (hbelow : b.toNat < 0xF0) :
    start b = .lead ⟨b.toNat - 0xE0, 2, if b.toNat = 0xE0 then 0xA0 else 0x80,
      if b.toNat = 0xED then 0x9F else 0xBF⟩ := by
  unfold start
  rw [if_neg (by omega), if_neg (by omega), if_neg (by omega)]
  by_cases h0 : b.toNat = 0xE0
  · simp [h0]
  · by_cases hD : b.toNat = 0xED
    · simp [hD]
    · rw [if_neg h0, if_neg hD, if_pos hbelow, if_neg h0, if_neg hD]

/-- The first byte of four: nothing overlong after F0 and nothing beyond U+10FFFF after F4. -/
theorem start_of_four {b : UInt8} (hleast : 0xF0 ≤ b.toNat) (hmost : b.toNat ≤ 0xF4) :
    start b = .lead ⟨b.toNat - 0xF0, 3, if b.toNat = 0xF0 then 0x90 else 0x80,
      if b.toNat = 0xF4 then 0x8F else 0xBF⟩ := by
  unfold start
  rw [if_neg (by omega), if_neg (by omega), if_neg (by omega), if_neg (by omega),
    if_neg (by omega), if_neg (by omega)]
  by_cases h0 : b.toNat = 0xF0
  · simp [h0]
  · by_cases h4 : b.toNat = 0xF4
    · simp [h4]
    · rw [if_neg h0, if_pos (by omega), if_neg h0, if_neg h4]

theorem scanFrom_of_lead {b : UInt8} {u : Unfinished} (h : start b = .lead u) (bs : List UInt8) :
    scanFrom none (b :: bs) = scanFrom (some u) bs := by
  simp [scanFrom, step, begin, h]

variable {bits least greatest : Nat} {b : UInt8}

/-- The last byte that is missing completes the character. -/
theorem scanFrom_last (hleast : least ≤ b.toNat) (hmost : b.toNat ≤ greatest) (bs : List UInt8) :
    scanFrom (some ⟨bits, 1, least, greatest⟩) (b :: bs) =
      some (Char.ofNat (bits * 64 + (b.toNat - 0x80))) :: scanFrom none bs := by
  simp [scanFrom, step, hleast, hmost]

/-- Another byte leaves one less missing. -/
theorem scanFrom_inner (missing : Nat) (hleast : least ≤ b.toNat) (hmost : b.toNat ≤ greatest)
    (bs : List UInt8) :
    scanFrom (some ⟨bits, missing + 2, least, greatest⟩) (b :: bs) =
      scanFrom (some ⟨bits * 64 + (b.toNat - 0x80), missing + 1, 0x80, 0xBF⟩) bs := by
  simp [scanFrom, step, hleast, hmost]

theorem toNat_ofNat_of_lt {n : Nat} (h : n < 256) : (UInt8.ofNat n).toNat = n := by
  rw [UInt8.toNat_ofNat']
  exact Nat.mod_eq_of_lt h

/-- **The bytes of a character are read as this character.** -/
theorem scanFrom_encodeChar (c : Char) (rest : List UInt8) :
    scanFrom none (String.utf8EncodeChar c ++ rest) = some c :: scanFrom none rest := by
  have hvalid : c.val.toNat < 0xD800 ∨ 0xDFFF < c.val.toNat ∧ c.val.toNat < 0x110000 := c.valid
  have hchar : Char.ofNat c.val.toNat = c := Char.ofNat_toNat c
  unfold String.utf8EncodeChar
  generalize c.val.toNat = v at hvalid hchar
  dsimp only
  split
  · next hone =>
    -- one byte
    have hb : (UInt8.ofNat v).toNat = v := toNat_ofNat_of_lt (by omega)
    have hstart : start (UInt8.ofNat v) = .ascii c := by
      unfold start
      rw [hb, if_pos (by omega), hchar]
    simp [scanFrom, step, begin, hstart]
  · split
    · next hone htwo =>
      -- two bytes: the first one has five bits
      have ha : (UInt8.ofNat (v / 64 % 32 + 192)).toNat = v / 64 % 32 + 192 :=
        toNat_ofNat_of_lt (by omega)
      have hb := toNat_continuation v
      have hstart : start (UInt8.ofNat (v / 64 % 32 + 192)) =
          .lead ⟨v / 64 % 32 + 192 - 0xC0, 1, 0x80, 0xBF⟩ := by
        unfold start
        rw [ha, if_neg (by omega), if_neg (by omega), if_pos (by omega)]
      have hvalue : (v / 64 % 32 + 192 - 0xC0) * 64 + (v % 64 + 128 - 0x80) = v := by omega
      rw [List.cons_append, scanFrom_of_lead hstart, List.cons_append,
        scanFrom_last (by omega) (by omega), hb, hvalue, hchar, List.nil_append]
    · split
      · next hone htwo hthree =>
        -- three bytes: the range of the second one leaves out surrogates
        have ha : (UInt8.ofNat (v / 4096 % 16 + 224)).toNat = v / 4096 % 16 + 224 :=
          toNat_ofNat_of_lt (by omega)
        have hb := toNat_continuation (v / 64)
        have hc := toNat_continuation v
        have hstart := start_of_three (b := UInt8.ofNat (v / 4096 % 16 + 224)) (by omega) (by omega)
        rw [ha] at hstart
        have hvalue : ((v / 4096 % 16 + 224 - 0xE0) * 64 + (v / 64 % 64 + 128 - 0x80)) * 64 +
            (v % 64 + 128 - 0x80) = v := by omega
        rw [List.cons_append, scanFrom_of_lead hstart, List.cons_append,
          scanFrom_inner 0 (by split <;> omega) (by split <;> omega), List.cons_append,
          scanFrom_last (by omega) (by omega), hb, hc, hvalue, hchar, List.nil_append]
      · next hone htwo hthree =>
        -- four bytes: the range of the second one ends with the last character
        have ha : (UInt8.ofNat (v / 262144 % 8 + 240)).toNat = v / 262144 % 8 + 240 :=
          toNat_ofNat_of_lt (by omega)
        have hb := toNat_continuation (v / 4096)
        have hc := toNat_continuation (v / 64)
        have hd := toNat_continuation v
        have hstart := start_of_four (b := UInt8.ofNat (v / 262144 % 8 + 240)) (by omega) (by omega)
        rw [ha] at hstart
        have hvalue : (((v / 262144 % 8 + 240 - 0xF0) * 64 + (v / 4096 % 64 + 128 - 0x80)) * 64 +
            (v / 64 % 64 + 128 - 0x80)) * 64 + (v % 64 + 128 - 0x80) = v := by omega
        rw [List.cons_append, scanFrom_of_lead hstart, List.cons_append,
          scanFrom_inner 1 (by split <;> omega) (by split <;> omega), List.cons_append,
          scanFrom_inner 0 (by omega) (by omega), List.cons_append,
          scanFrom_last (by omega) (by omega), hb, hc, hd, hvalue, hchar, List.nil_append]

/-- **The bytes of a character never begin those of another.** -/
theorem encodeChar_append_inj {c d : Char} {xs ys : List UInt8}
    (h : String.utf8EncodeChar c ++ xs = String.utf8EncodeChar d ++ ys) : c = d ∧ xs = ys := by
  have hscan := congrArg (scanFrom none) h
  rw [scanFrom_encodeChar, scanFrom_encodeChar] at hscan
  obtain rfl : c = d := Option.some.inj (List.cons.inj hscan).1
  exact ⟨rfl, List.append_cancel_left h⟩

/-- **Encoded characters are scanned as they are.** -/
theorem scan_encodeChars (cs : List Char) : scan (encodeChars cs) = cs.map some := by
  induction cs with
  | nil => rfl
  | cons c cs ih =>
    rw [scan, encodeChars, List.flatMap_cons, scanFrom_encodeChar]
    exact congrArg (some c :: ·) ih

/-! ## The bytes of a character -/

/-- The bytes that stand inside a character, after its first one. -/
def Continuation (b : UInt8) : Prop :=
  0x80 ≤ b.toNat ∧ b.toNat < 0xC0

/-- Six bits make a continuation byte. -/
theorem continuation_ofNat (n : Nat) : Continuation (UInt8.ofNat (n % 64 + 128)) := by
  unfold Continuation
  rw [toNat_continuation]
  omega

/-- How a character is spelled: below U+0080 it is its own byte, and any other begins with a byte
that continues none. -/
inductive Spelled (c : Char) : List UInt8 → Prop where
  | ascii {b : UInt8} (value : b.toNat = c.toNat) (below : c.toNat < 0x80) : Spelled c [b]
  | longer {b : UInt8} {bs : List UInt8} (lead : 0xC0 ≤ b.toNat) (least : 0x80 ≤ c.toNat)
      (continuations : ∀ b ∈ bs, Continuation b) : Spelled c (b :: bs)

/-- After its first byte a character has continuation bytes only. -/
theorem Spelled.continuations {c : Char} {bs : List UInt8} (h : Spelled c bs) :
    ∃ b rest, bs = b :: rest ∧ ∀ b ∈ rest, Continuation b := by
  cases h with
  | ascii => exact ⟨_, [], rfl, by simp⟩
  | longer _ _ continuations => exact ⟨_, _, rfl, continuations⟩

/-- Every character is spelled by its size. -/
theorem spelled (c : Char) : Spelled c (String.utf8EncodeChar c) := by
  have hvalid : c.toNat < 0xD800 ∨ 0xDFFF < c.toNat ∧ c.toNat < 0x110000 := c.valid
  have hlead : ∀ n, 0xC0 ≤ n → n < 256 → 0xC0 ≤ (UInt8.ofNat n).toNat := by
    intro n hleast hn
    rwa [toNat_ofNat_of_lt hn]
  have hvalue : c.val.toNat = c.toNat := rfl
  unfold String.utf8EncodeChar
  rw [hvalue]
  dsimp only
  split
  · exact .ascii (toNat_ofNat_of_lt (by omega)) (by omega)
  · split
    · refine .longer (hlead _ (by omega) (by omega)) (by omega) ?_
      simp only [List.forall_mem_cons, continuation_ofNat, List.not_mem_nil, false_implies,
        implies_true, and_self]
    · split
      · refine .longer (hlead _ (by omega) (by omega)) (by omega) ?_
        simp only [List.forall_mem_cons, continuation_ofNat, List.not_mem_nil, false_implies,
          implies_true, and_self]
      · refine .longer (hlead _ (by omega) (by omega)) (by omega) ?_
        simp only [List.forall_mem_cons, continuation_ofNat, List.not_mem_nil, false_implies,
          implies_true, and_self]

/-! ## What the automaton accepts -/

/-- What completes a character of which one byte is missing. -/
theorem exists_last {c : Char} {bs : List UInt8} {xs : List (Option Char)}
    (h : scanFrom (some ⟨bits, 1, least, greatest⟩) bs = some c :: xs) :
    ∃ b rest, bs = b :: rest ∧ least ≤ b.toNat ∧ b.toNat ≤ greatest ∧
      c = Char.ofNat (bits * 64 + (b.toNat - 0x80)) ∧ scanFrom none rest = xs := by
  cases bs with
  | nil => cases h
  | cons b rest =>
    by_cases hrange : least ≤ b.toNat ∧ b.toNat ≤ greatest
    · rw [scanFrom_last hrange.1 hrange.2] at h
      obtain ⟨hc, hrest⟩ := List.cons.inj h
      exact ⟨b, rest, rfl, hrange.1, hrange.2, (Option.some.inj hc).symm, hrest⟩
    · rw [scanFrom, step, if_neg hrange] at h
      cases h

/-- What continues a character of which several bytes are missing. -/
theorem exists_inner {c : Char} {missing : Nat} {bs : List UInt8} {xs : List (Option Char)}
    (h : scanFrom (some ⟨bits, missing + 2, least, greatest⟩) bs = some c :: xs) :
    ∃ b rest, bs = b :: rest ∧ least ≤ b.toNat ∧ b.toNat ≤ greatest ∧
      scanFrom (some ⟨bits * 64 + (b.toNat - 0x80), missing + 1, 0x80, 0xBF⟩) rest =
        some c :: xs := by
  cases bs with
  | nil => cases h
  | cons b rest =>
    by_cases hrange : least ≤ b.toNat ∧ b.toNat ≤ greatest
    · rw [scanFrom_inner missing hrange.1 hrange.2] at h
      exact ⟨b, rest, rfl, hrange.1, hrange.2, h⟩
    · rw [scanFrom, step, if_neg hrange] at h
      cases h

/-- The code point of the character that is made of one. -/
theorem toNat_val_ofNat {v : Nat} (h : v < 0xD800 ∨ 0xDFFF < v ∧ v < 0x110000) :
    (Char.ofNat v).val.toNat = v := by
  have hvalid : v.isValidChar := h
  rw [Char.ofNat, dif_pos hvalid]
  rfl

section Encoded

variable {a b c d : UInt8}

/-- One byte is the character that it names. -/
theorem encodeChar_one (ha : a.toNat < 0x80) : String.utf8EncodeChar (Char.ofNat a.toNat) = [a] := by
  unfold String.utf8EncodeChar
  rw [toNat_val_ofNat (by omega)]
  dsimp only
  rw [if_pos (by omega)]
  simp

/-- Two bytes in range are the character that they are read as. -/
theorem encodeChar_two (hleast : 0xC2 ≤ a.toNat) (hbelow : a.toNat < 0xE0)
    (hb : 0x80 ≤ b.toNat ∧ b.toNat ≤ 0xBF) :
    String.utf8EncodeChar (Char.ofNat ((a.toNat - 0xC0) * 64 + (b.toNat - 0x80))) = [a, b] := by
  unfold String.utf8EncodeChar
  rw [toNat_val_ofNat (by omega)]
  generalize hv : (a.toNat - 0xC0) * 64 + (b.toNat - 0x80) = v
  have ha' : v / 64 % 32 + 192 = a.toNat := by omega
  have hb' : v % 64 + 128 = b.toNat := by omega
  dsimp only
  rw [if_neg (by omega), if_pos (by omega), ha', hb']
  simp

/-- Three bytes in range are, too: no longer than they need to be, and no surrogate. -/
theorem encodeChar_three (hleast : 0xE0 ≤ a.toNat) (hbelow : a.toNat < 0xF0)
    (hb : 0x80 ≤ b.toNat ∧ b.toNat ≤ 0xBF) (hc : 0x80 ≤ c.toNat ∧ c.toNat ≤ 0xBF)
    (hlong : a.toNat = 0xE0 → 0xA0 ≤ b.toNat) (hsurrogate : a.toNat = 0xED → b.toNat ≤ 0x9F) :
    String.utf8EncodeChar (Char.ofNat (((a.toNat - 0xE0) * 64 + (b.toNat - 0x80)) * 64 +
      (c.toNat - 0x80))) = [a, b, c] := by
  unfold String.utf8EncodeChar
  rw [toNat_val_ofNat (by omega)]
  generalize hv : ((a.toNat - 0xE0) * 64 + (b.toNat - 0x80)) * 64 + (c.toNat - 0x80) = v
  have ha' : v / 4096 % 16 + 224 = a.toNat := by omega
  have hb' : v / 64 % 64 + 128 = b.toNat := by omega
  have hc' : v % 64 + 128 = c.toNat := by omega
  dsimp only
  rw [if_neg (by omega), if_neg (by omega), if_pos (by omega), ha', hb', hc']
  simp

/-- Four bytes in range are, too: no longer than they need to be, and not beyond the last character.
-/
theorem encodeChar_four (hleast : 0xF0 ≤ a.toNat) (hmost : a.toNat ≤ 0xF4)
    (hb : 0x80 ≤ b.toNat ∧ b.toNat ≤ 0xBF) (hc : 0x80 ≤ c.toNat ∧ c.toNat ≤ 0xBF)
    (hd : 0x80 ≤ d.toNat ∧ d.toNat ≤ 0xBF) (hlong : a.toNat = 0xF0 → 0x90 ≤ b.toNat)
    (hbeyond : a.toNat = 0xF4 → b.toNat ≤ 0x8F) :
    String.utf8EncodeChar (Char.ofNat ((((a.toNat - 0xF0) * 64 + (b.toNat - 0x80)) * 64 +
      (c.toNat - 0x80)) * 64 + (d.toNat - 0x80))) = [a, b, c, d] := by
  unfold String.utf8EncodeChar
  rw [toNat_val_ofNat (by omega)]
  generalize hv : (((a.toNat - 0xF0) * 64 + (b.toNat - 0x80)) * 64 + (c.toNat - 0x80)) * 64 +
    (d.toNat - 0x80) = v
  have ha' : v / 262144 % 8 + 240 = a.toNat := by omega
  have hb' : v / 4096 % 64 + 128 = b.toNat := by omega
  have hc' : v / 64 % 64 + 128 = c.toNat := by omega
  have hd' : v % 64 + 128 = d.toNat := by omega
  dsimp only
  rw [if_neg (by omega), if_neg (by omega), if_neg (by omega), ha', hb', hc', hd']
  simp

end Encoded

/-- A lead byte of two announces one byte more. -/
theorem start_of_two (hleast : 0xC2 ≤ b.toNat) (hbelow : b.toNat < 0xE0) :
    start b = .lead ⟨b.toNat - 0xC0, 1, 0x80, 0xBF⟩ := by
  unfold start
  rw [if_neg (by omega), if_neg (by omega), if_pos hbelow]

/-- The bytes that begin no character. -/
theorem start_of_none (h : 0x80 ≤ b.toNat ∧ b.toNat < 0xC2 ∨ 0xF4 < b.toNat) :
    start b = .flaw := by
  unfold start
  rw [if_neg (by omega)]
  rcases h with h | h
  · rw [if_pos h.2]
  · rw [if_neg (by omega), if_neg (by omega), if_neg (by omega), if_neg (by omega),
      if_neg (by omega), if_neg (by omega), if_neg (by omega), if_neg (by omega)]

/-- **Where the automaton reports a character, its bytes stand.** -/
theorem exists_char {c : Char} {bs : List UInt8} {xs : List (Option Char)}
    (h : scanFrom none bs = some c :: xs) :
    ∃ rest, bs = String.utf8EncodeChar c ++ rest ∧ scanFrom none rest = xs := by
  cases bs with
  | nil => cases h
  | cons b bs =>
    by_cases hone : b.toNat < 0x80
    · have hstart : start b = .ascii (Char.ofNat b.toNat) := by
        unfold start
        rw [if_pos hone]
      simp only [scanFrom, step, begin, hstart, List.cons_append, List.nil_append,
        List.cons.injEq, Option.some.injEq] at h
      obtain ⟨rfl, rfl⟩ := h
      exact ⟨bs, by rw [encodeChar_one hone]; rfl, rfl⟩
    by_cases hflaw : b.toNat < 0xC2 ∨ 0xF4 < b.toNat
    · rw [scanFrom, step, begin, start_of_none (by omega)] at h
      cases h
    -- the byte leads a character of two, three or four
    by_cases htwo : b.toNat < 0xE0
    · rw [scanFrom_of_lead (start_of_two (by omega) htwo)] at h
      obtain ⟨b₂, rest, rfl, h₂, h₂', hc, hrest⟩ := exists_last h
      have hcode := encodeChar_two (a := b) (b := b₂) (by omega) htwo ⟨h₂, h₂'⟩
      exact ⟨rest, by rw [hc, hcode]; rfl, hrest⟩
    by_cases hthree : b.toNat < 0xF0
    · rw [scanFrom_of_lead (start_of_three (by omega) hthree)] at h
      obtain ⟨b₂, rest₂, rfl, h₂, h₂', h⟩ := exists_inner h
      obtain ⟨b₃, rest, rfl, h₃, h₃', hc, hrest⟩ := exists_last h
      have hcode := encodeChar_three (a := b) (b := b₂) (c := b₃) (by omega) hthree
        (by split at h₂ <;> split at h₂' <;> omega) ⟨h₃, h₃'⟩
        (fun ha => by rwa [if_pos ha] at h₂) (fun ha => by rwa [if_pos ha] at h₂')
      exact ⟨rest, by rw [hc, hcode]; rfl, hrest⟩
    · rw [scanFrom_of_lead (start_of_four (by omega) (by omega))] at h
      obtain ⟨b₂, rest₂, rfl, h₂, h₂', h⟩ := exists_inner h
      obtain ⟨b₃, rest₃, rfl, h₃, h₃', h⟩ := exists_inner h
      obtain ⟨b₄, rest, rfl, h₄, h₄', hc, hrest⟩ := exists_last h
      have hcode := encodeChar_four (a := b) (b := b₂) (c := b₃) (d := b₄) (by omega) (by omega)
        (by split at h₂ <;> split at h₂' <;> omega) ⟨h₃, h₃'⟩ ⟨h₄, h₄'⟩
        (fun ha => by rwa [if_pos ha] at h₂) (fun ha => by rwa [if_pos ha] at h₂')
      exact ⟨rest, by rw [hc, hcode]; rfl, hrest⟩

/-- Bytes are never passed over in silence. -/
theorem scanFrom_some_ne_nil (u : Unfinished) (bs : List UInt8) : scanFrom (some u) bs ≠ [] := by
  induction bs generalizing u with
  | nil => simp [scanFrom]
  | cons b bs ih =>
    simp only [scanFrom, step]
    split
    · split
      · simp
      · exact ih _
    · simp

/-- Every byte leaves a trace in what is scanned. -/
theorem scanFrom_cons_ne_nil (b : UInt8) (bs : List UInt8) : scanFrom none (b :: bs) ≠ [] := by
  cases h : start b with
  | ascii c => simp [scanFrom, step, begin, h]
  | flaw => simp [scanFrom, step, begin, h]
  | lead u =>
    rw [scanFrom_of_lead h]
    exact scanFrom_some_ne_nil u bs

/-- Bytes that are scanned without a flaw are the encoding of their characters. -/
theorem eq_encodeChars_of_scan {cs : List Char} {bs : List UInt8} (h : scan bs = cs.map some) :
    bs = encodeChars cs := by
  induction cs generalizing bs with
  | nil =>
    cases bs with
    | nil => rfl
    | cons b bs =>
      exact absurd h (scanFrom_cons_ne_nil b bs)
  | cons c cs ih =>
    obtain ⟨rest, rfl, hrest⟩ := exists_char h
    rw [ih hrest]
    rfl

/-! ## Reading and writing -/

/-- What was scanned is collected if it has no flaw. -/
theorem collect?_eq_some_iff {xs : List (Option Char)} {cs : List Char} :
    collect? xs = some cs ↔ xs = cs.map some := by
  induction xs generalizing cs with
  | nil => cases cs <;> simp [collect?]
  | cons x xs ih =>
    cases x with
    | none => cases cs <;> simp [collect?]
    | some c =>
      cases cs with
      | nil => simp [collect?]
      | cons d cs =>
        rw [collect?, Option.map_eq_some_iff, List.map_cons, List.cons.injEq, Option.some.injEq]
        constructor
        · rintro ⟨rest, hrest, heq⟩
          obtain ⟨rfl, rfl⟩ := List.cons.inj heq
          exact ⟨rfl, ih.mp hrest⟩
        · rintro ⟨rfl, hrest⟩
          exact ⟨cs, ih.mpr hrest, rfl⟩

/-- **Reading undoes writing**, and nothing is read that was not written. -/
theorem decode?_eq_some_iff {bytes : List UInt8} {s : String} :
    decode? bytes = some s ↔ bytes = encode s := by
  rw [decode?, Option.map_eq_some_iff]
  constructor
  · rintro ⟨cs, hcs, rfl⟩
    rw [encode, String.toList_ofList]
    exact eq_encodeChars_of_scan (collect?_eq_some_iff.mp hcs)
  · rintro rfl
    exact ⟨s.toList, collect?_eq_some_iff.mpr (scan_encodeChars _), String.ofList_toList⟩

/-- **Every text is decoded from its encoding.** -/
theorem decode?_encode (s : String) : decode? (encode s) = some s :=
  decode?_eq_some_iff.mpr rfl

theorem encode_injective : Function.Injective encode := fun s t h =>
  Option.some.inj ((decode?_encode s).symm.trans (h ▸ decode?_encode t))

end ClusterClient.Utf8
