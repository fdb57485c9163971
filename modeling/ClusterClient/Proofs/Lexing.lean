import ClusterClient.Proofs.Numerals

/-!
# Tokens and their texts

The lexer finds in a text the tokens that are written there, one after the other, and nothing else.

* **`TokenText`**: what a token is written with.
* **`tokens_append`**: a token that is written in front of a rest is found, provided that the rest
  does not go on with a numeral.
* **`exists_tokenText`**: what is found is written there, after space.
-/

namespace ClusterClient.Json

/-- What stands between the quotes of a string, by the pieces that the lexer keeps. -/
inductive PieceText : List UInt8 → List Piece → Prop where
  | nil : PieceText [] []
  | byte {b : UInt8} {bs : List UInt8} {ps : List Piece} (quote : b ≠ 34) (backslash : b ≠ 92)
      (least : 32 ≤ b.toNat) (rest : PieceText bs ps) : PieceText (b :: bs) (.byte b :: ps)
  | escape {b : UInt8} {n : Nat} {bs : List UInt8} {ps : List Piece}
      (code : escapeCode? b = some n) (rest : PieceText bs ps) :
      PieceText (92 :: b :: bs) (.codeUnit n :: ps)
  | unit {hs bs : List UInt8} {n : Nat} {ps : List Piece} (unit : CodeUnit hs n)
      (rest : PieceText bs ps) : PieceText (92 :: 117 :: (hs ++ bs)) (.codeUnit n :: ps)

/-- The byte that is a token by itself. -/
def Token.mark? : Token → Option UInt8
  | .openArray => some 91
  | .closeArray => some 93
  | .openObject => some 123
  | .closeObject => some 125
  | .comma => some 44
  | .colon => some 58
  | .scalar _ | .flaw => none

/-- What a token is written with. -/
inductive TokenText : Token → List UInt8 → Prop where
  | mark {k : Token} {b : UInt8} (mark : k.mark? = some b) : TokenText k [b]
  | null : TokenText (.scalar .null) [110, 117, 108, 108]
  | true : TokenText (.scalar (.bool true)) [116, 114, 117, 101]
  | false : TokenText (.scalar (.bool false)) [102, 97, 108, 115, 101]
  | number {bs : List UInt8} {n : Numeral} (text : NumeralText bs n) :
      TokenText (.scalar (.number n)) bs
  | string {bs : List UInt8} {ps : List Piece} (text : PieceText bs ps) :
      TokenText (.scalar (.string ps)) (34 :: (bs ++ [34]))

/-- The text ends or goes on with space, a comma or a closing bracket or brace, so that no numeral
before it goes on. -/
def Ends (bs : List UInt8) : Prop :=
  ∀ b ∈ bs.head?, isSpace b = true ∨ b = 44 ∨ b = 93 ∨ b = 125

theorem Ends.nil : Ends [] := by
  simp [Ends]

/-- What a text goes on with is decided by its first byte. -/
theorem ends_cons {b : UInt8} {bs : List UInt8} :
    Ends (b :: bs) ↔ isSpace b = true ∨ b = 44 ∨ b = 93 ∨ b = 125 := by
  simp [Ends]

/-- Space may come in between. -/
theorem Ends.blank {ws bs : List UInt8} (hws : Blank ws) (h : Ends bs) : Ends (ws ++ bs) := by
  cases ws with
  | nil => exact h
  | cons b ws => exact ends_cons.mpr (.inl (hws b List.mem_cons_self))

/-- A byte that ends a numeral extends none, in whatever phase. -/
theorem Ends.no_extension {b : UInt8} {bs : List UInt8} (h : Ends (b :: bs)) (n : Numeral)
    (phase : NumeralPhase) : Lexeme.extend? n phase b = none ∧ digit? b = none := by
  have hb : b = 32 ∨ b = 10 ∨ b = 9 ∨ b = 13 ∨ b = 44 ∨ b = 93 ∨ b = 125 := by
    simpa [isSpace_iff, or_assoc] using ends_cons.mp h
  rcases hb with rfl | rfl | rfl | rfl | rfl | rfl | rfl <;> cases phase <;> exact ⟨rfl, rfl⟩

namespace Lexeme

/-! ## Space -/

/-- Space between tokens is passed over. -/
theorem tokens_space {b : UInt8} (h : isSpace b = true) (bs : List UInt8) :
    idle.tokens (b :: bs) = idle.tokens bs := by
  simp [tokens, step, begin, h]

/-- So is any amount of it. -/
theorem tokens_blank {ws : List UInt8} (h : Blank ws) (bs : List UInt8) :
    idle.tokens (ws ++ bs) = idle.tokens bs := by
  induction ws with
  | nil => rfl
  | cons b ws ih =>
    rw [List.cons_append, tokens_space (h b List.mem_cons_self),
      ih fun c hc => h c (List.mem_cons_of_mem _ hc)]

/-! ## Tokens that are written -/

/-- A bracket, brace, comma or colon is a token by itself. -/
theorem tokens_mark {k : Token} {b : UInt8} (h : k.mark? = some b) (bs : List UInt8) :
    idle.tokens (b :: bs) = k :: idle.tokens bs := by
  cases k with
  | scalar | flaw => cases h
  | openArray | closeArray | openObject | closeObject | comma | colon =>
    obtain rfl := Option.some.inj h
    rfl

/-- The rest of a word completes it. -/
theorem tokens_word {c : UInt8} {missing : List UInt8} (s : Scalar) (bs : List UInt8) :
    (word (c :: missing) s).tokens (c :: missing ++ bs) = .scalar s :: idle.tokens bs := by
  induction missing generalizing c with
  | nil => simp [tokens, step, stepWord]
  | cons d missing ih =>
    have hstep : (word (c :: d :: missing) s).step c = ([], word (d :: missing) s) := by
      simp [step, stepWord]
    rw [List.cons_append, tokens, hstep]
    exact ih

/-- What continues a numeral completes it where the text ends it. -/
theorem tokens_continues {n n' : Numeral} {phase : NumeralPhase} {text : List UInt8}
    (h : Continues n phase text n') {bs : List UInt8} (hbs : Ends bs) :
    (numeral n phase).tokens (text ++ bs) = .scalar (.number n') :: idle.tokens bs := by
  induction text generalizing n phase with
  | nil =>
    obtain ⟨hend, rfl⟩ := h
    cases bs with
    | nil => simp [tokens, finish, hend]
    | cons b bs =>
      obtain ⟨hextend, hdigit⟩ := hbs.no_extension n' phase
      simp [tokens, step, stepNumeral, hextend, hdigit, hend]
  | cons b text ih =>
    obtain ⟨more, next, hextend, hrest⟩ := h
    simp only [List.cons_append, tokens, step, stepNumeral, hextend, List.nil_append]
    exact ih hrest

/-- A digit begins a numeral as it would go on after a minus. -/
theorem begin_digit {b : UInt8} {d : Nat} (h : digit? b = some d) :
    begin b = ([], numeral ⟨false, [d], [], none⟩ (if d = 0 then .zero else .whole)) := by
  obtain ⟨hd, rfl⟩ := digit?_eq_some_iff.mp h
  have hcases : d = 0 ∨ d = 1 ∨ d = 2 ∨ d = 3 ∨ d = 4 ∨ d = 5 ∨ d = 6 ∨ d = 7 ∨ d = 8 ∨ d = 9 := by
    omega
  rcases hcases with rfl | rfl | rfl | rfl | rfl | rfl | rfl | rfl | rfl | rfl <;> rfl

/-- **A numeral is found** in front of what ends it. -/
theorem tokens_numeral {bs : List UInt8} {n : Numeral} (h : NumeralText bs n) {rest : List UInt8}
    (hrest : Ends rest) : idle.tokens (bs ++ rest) = .scalar (.number n) :: idle.tokens rest := by
  obtain ⟨negative, text, rfl, hcontinues⟩ := continues_of_numeralText h
  cases negative with
  | true => exact tokens_continues hcontinues hrest
  | false =>
    cases text with
    | nil => cases hcontinues.1
    | cons b text =>
      obtain ⟨more, next, hextend, hmore⟩ := hcontinues
      cases hb : digit? b with
      | none => cases (extend?_of_none hb _ (.inl rfl)).symm.trans hextend
      | some d =>
        simp only [extend?, hb] at hextend
        cases hextend
        simp only [Bool.false_eq_true, if_false, List.nil_append, List.cons_append, tokens, step,
          begin_digit hb]
        exact tokens_continues hmore hrest

/-- Hexadecimal digits complete the code unit that they write. -/
theorem tokens_hex {v n : Nat} {hs : List UInt8} (h : hexFold? v hs = some n) (hne : hs ≠ [])
    (ps : List Piece) (bs : List UInt8) :
    (unit ps v hs.length).tokens (hs ++ bs) = (string (.codeUnit n :: ps)).tokens bs := by
  induction hs generalizing v with
  | nil => exact absurd rfl hne
  | cons b hs ih =>
    simp only [hexFold?] at h
    split at h
    · next d hd =>
      cases hs with
      | nil =>
        cases h
        simp [tokens, step, stepUnit, hd]
      | cons c hs =>
        have hstep : (unit ps v (b :: c :: hs).length).step b =
            ([], unit ps (v * 16 + d) (c :: hs).length) := by
          simp [step, stepUnit, hd]
        rw [List.cons_append, tokens, hstep]
        exact ih h (List.cons_ne_nil c hs)
    · cases h

/-- **The pieces of a string are found** up to the closing quote, by induction on how they are
written. -/
theorem tokens_pieces {bs : List UInt8} {ps : List Piece} (h : PieceText bs ps)
    (before : List Piece) (rest : List UInt8) :
    (string before).tokens (bs ++ 34 :: rest) =
      .scalar (.string (before.reverse ++ ps)) :: idle.tokens rest := by
  induction h generalizing before with
  | nil => simp [tokens, step, stepString]
  | @byte b bs ps quote backslash least _ ih =>
    have hstep : (string before).step b = ([], string (.byte b :: before)) := by
      simp [step, stepString, quote, backslash, Nat.not_lt.mpr least]
    rw [List.cons_append, tokens, hstep, List.nil_append, ih]
    simp
  | @escape b n bs ps code _ ih =>
    -- no short escape has the letter of the numbered one
    have hne : b ≠ 117 := by
      rintro rfl
      cases code
    have hstep : (escape before).step b = ([], string (.codeUnit n :: before)) := by
      simp [step, stepEscape, hne, code]
    rw [List.cons_append, List.cons_append, tokens]
    show (escape before).tokens (b :: (bs ++ 34 :: rest)) = _
    rw [tokens, hstep, List.nil_append, ih]
    simp
  | @unit hs bs n ps unit _ ih =>
    -- four digits, so there is a first one
    obtain ⟨hlength, hvalue⟩ := unit
    have hne : hs ≠ [] := by
      rintro rfl
      cases hlength
    rw [List.cons_append, List.cons_append, List.append_assoc]
    show (Lexeme.unit before 0 4).tokens (hs ++ (bs ++ 34 :: rest)) = _
    rw [← hlength, tokens_hex hvalue hne, ih]
    simp

/-- **A token that is written is found**, if what follows does not go on with it. -/
theorem tokens_append {k : Token} {bs : List UInt8} (h : TokenText k bs) {rest : List UInt8}
    (hrest : ∀ n, k = .scalar (.number n) → Ends rest) :
    idle.tokens (bs ++ rest) = k :: idle.tokens rest := by
  cases h with
  | mark hmark => exact tokens_mark hmark rest
  | null => exact tokens_word .null rest
  | true => exact tokens_word (.bool true) rest
  | false => exact tokens_word (.bool false) rest
  | number text => exact tokens_numeral text (hrest _ rfl)
  | string text =>
    rw [List.cons_append, List.append_assoc]
    exact tokens_pieces text [] rest

/-! ## Tokens that are found -/

section Found

variable {k : Token} {ks : List Token} (hk : k ≠ .flaw)
include hk

/-- If a token comes out of a word that is begun, its letters are there. -/
theorem word_of_tokens {c : UInt8} {missing : List UInt8} {s : Scalar} {bs : List UInt8}
    (h : (word (c :: missing) s).tokens bs = k :: ks) :
    ∃ rest, bs = c :: missing ++ rest ∧ k = .scalar s ∧ idle.tokens rest = ks := by
  induction missing generalizing c bs with
  | nil =>
    -- the last letter
    cases bs with
    | nil => cases h; exact absurd rfl hk
    | cons b bs =>
      simp only [tokens, step, stepWord] at h
      split at h
      · next hb =>
        cases h
        exact ⟨bs, by rw [hb]; rfl, rfl, rfl⟩
      · cases h
        exact absurd rfl hk
  | cons d missing ih =>
    cases bs with
    | nil => cases h; exact absurd rfl hk
    | cons b bs =>
      simp only [tokens, step, stepWord] at h
      split at h
      · next hb =>
        obtain ⟨rest, rfl, hrest⟩ := ih h
        exact ⟨rest, by rw [hb]; rfl, hrest⟩
      · cases h
        exact absurd rfl hk

/-- If a token comes out of a numeral that is begun, it is a numeral that the text continues. -/
theorem numeral_of_tokens {n : Numeral} {phase : NumeralPhase} {bs : List UInt8}
    (h : (numeral n phase).tokens bs = k :: ks) :
    ∃ text rest n', bs = text ++ rest ∧ Continues n phase text n' ∧ k = .scalar (.number n') ∧
      idle.tokens rest = ks := by
  induction bs generalizing n phase with
  | nil =>
    simp only [tokens, finish] at h
    split at h
    · next hend =>
      cases h
      exact ⟨[], [], n, rfl, ⟨hend, rfl⟩, rfl, rfl⟩
    · cases h
      exact absurd rfl hk
  | cons b bs ih =>
    simp only [tokens, step, stepNumeral] at h
    split at h
    · next more next hextend =>
      obtain ⟨text, rest, n', rfl, hcontinues, hrest⟩ := ih h
      exact ⟨b :: text, rest, n', rfl, ⟨more, next, hextend, hcontinues⟩, hrest⟩
    · split at h
      · next hend =>
        -- the byte belongs to what comes next
        cases h
        exact ⟨[], b :: bs, n, rfl, ⟨hend.1, rfl⟩, rfl, rfl⟩
      · cases h
        exact absurd rfl hk

/-- If a token comes out of a numbered escape that is begun, its digits are there. -/
theorem hex_of_tokens {ps : List Piece} {v missing : Nat} {bs : List UInt8}
    (h : (unit ps v (missing + 1)).tokens bs = k :: ks) :
    ∃ hs rest n, bs = hs ++ rest ∧ hs.length = missing + 1 ∧ hexFold? v hs = some n ∧
      (string (.codeUnit n :: ps)).tokens rest = k :: ks := by
  induction missing generalizing v bs with
  | zero =>
    cases bs with
    | nil => cases h; exact absurd rfl hk
    | cons b bs =>
      simp only [tokens, step, stepUnit] at h
      split at h
      · next d hd => exact ⟨[b], bs, v * 16 + d, rfl, rfl, by simp [hexFold?, hd], by simpa using h⟩
      · cases h
        exact absurd rfl hk
  | succ missing ih =>
    cases bs with
    | nil => cases h; exact absurd rfl hk
    | cons b bs =>
      simp only [tokens, step, stepUnit] at h
      split at h
      · next d hd =>
        rw [if_neg (by omega), Nat.add_sub_cancel] at h
        obtain ⟨hs, rest, n, rfl, hlength, hvalue, hrest⟩ := ih h
        exact ⟨b :: hs, rest, n, rfl, by simp [hlength], by simp [hexFold?, hd, hvalue], hrest⟩
      · cases h
        exact absurd rfl hk

/-- A string, up to its closing quote. The induction is on the length of the text, as an escape
takes several bytes. -/
theorem pieces_of_tokens {bs : List UInt8} {before : List Piece}
    (h : (string before).tokens bs = k :: ks) :
    ∃ text ps rest, bs = text ++ 34 :: rest ∧ PieceText text ps ∧
      k = .scalar (.string (before.reverse ++ ps)) ∧ idle.tokens rest = ks := by
  induction hlength : bs.length using Nat.strongRecOn generalizing bs before with
  | ind length ih =>
    cases bs with
    | nil => cases h; exact absurd rfl hk
    | cons b bs =>
      simp only [List.length_cons] at hlength
      simp only [tokens, step, stepString] at h
      split at h
      · next hquote =>
        cases h
        exact ⟨[], [], bs, by rw [hquote]; rfl, .nil, by simp, rfl⟩
      · next hquote =>
        split at h
        · next hbackslash =>
          -- an escape: the letter decides how many bytes it takes
          subst hbackslash
          cases bs with
          | nil => cases h; exact absurd rfl hk
          | cons e bs =>
            simp only [List.length_cons] at hlength
            simp only [List.nil_append, tokens, step, stepEscape] at h
            split at h
            · next he =>
              -- a numbered escape, and the string after its digits
              subst he
              obtain ⟨hs, rest, n, rfl, hfour, hvalue, hstring⟩ := hex_of_tokens hk h
              rw [List.length_append] at hlength
              obtain ⟨text, ps, rest, rfl, htext, rfl, hrest⟩ := ih _ (by omega) hstring rfl
              refine ⟨_, _, rest, ?_, .unit ⟨hfour, hvalue⟩ htext, by simp, hrest⟩
              simp
            · split at h
              · next n hn =>
                -- a short escape
                obtain ⟨text, ps, rest, rfl, htext, rfl, hrest⟩ := ih _ (by omega) h rfl
                exact ⟨_, _, rest, rfl, .escape hn htext, by simp, hrest⟩
              · cases h
                exact absurd rfl hk
        · next hbackslash =>
          split at h
          · cases h
            exact absurd rfl hk
          · next hleast =>
            -- any other byte that is no control character
            obtain ⟨text, ps, rest, rfl, htext, rfl, hrest⟩ := ih _ (by omega) h rfl
            exact ⟨_, _, rest, rfl, .byte hquote hbackslash (Nat.not_lt.mp hleast) htext, by simp,
              hrest⟩

end Found

/-- What a byte begins between tokens. -/
inductive Begins (b : UInt8) : Step → Prop where
  | space (space : isSpace b = true) : Begins b ([], idle)
  | mark {k : Token} (mark : k.mark? = some b) : Begins b ([k], idle)
  | quote (quote : b = 34) : Begins b ([], string [])
  | null (letter : b = 110) : Begins b ([], word [117, 108, 108] .null)
  | true (letter : b = 116) : Begins b ([], word [114, 117, 101] (.bool true))
  | false (letter : b = 102) : Begins b ([], word [97, 108, 115, 101] (.bool false))
  | minus (minus : b = 45) : Begins b ([], numeral ⟨true, [], [], none⟩ .sign)
  | digit {d : Nat} (digit : digit? b = some d) :
      Begins b ([], numeral ⟨false, [d], [], none⟩ (if d = 0 then .zero else .whole))
  | flaw : Begins b flaw

theorem begins_ite {b : UInt8} {c : Prop} [Decidable c] {s t : Step} (hs : c → Begins b s)
    (ht : ¬ c → Begins b t) : Begins b (if c then s else t) := by
  split
  · next h => exact hs h
  · next h => exact ht h

/-- **The cases of a byte between tokens**, a flaw apart. -/
theorem begins (b : UInt8) : Begins b (begin b) := by
  cases hdigit : digit? b with
  | some d =>
    rw [begin_digit hdigit]
    exact .digit hdigit
  | none =>
    rw [begin, hdigit]
    refine begins_ite .space fun _ => ?_
    refine begins_ite (fun h => .mark (by rw [h]; rfl)) fun _ => ?_
    refine begins_ite (fun h => .mark (by rw [h]; rfl)) fun _ => ?_
    refine begins_ite (fun h => .mark (by rw [h]; rfl)) fun _ => ?_
    refine begins_ite (fun h => .mark (by rw [h]; rfl)) fun _ => ?_
    refine begins_ite (fun h => .mark (by rw [h]; rfl)) fun _ => ?_
    refine begins_ite (fun h => .mark (by rw [h]; rfl)) fun _ => ?_
    refine begins_ite .quote fun _ => ?_
    refine begins_ite .null fun _ => ?_
    refine begins_ite .true fun _ => ?_
    refine begins_ite .false fun _ => ?_
    exact begins_ite .minus fun _ => .flaw

/-- **A token that is found is written there**, after space. -/
theorem exists_tokenText {k : Token} {ks : List Token} (hk : k ≠ .flaw) {bs : List UInt8}
    (h : idle.tokens bs = k :: ks) :
    ∃ ws text rest, bs = ws ++ (text ++ rest) ∧ Blank ws ∧ TokenText k text ∧
      idle.tokens rest = ks := by
  induction bs with
  | nil => cases h
  | cons b bs ih =>
    have hbegins := begins b
    rw [tokens, step] at h
    generalize begin b = begun at h hbegins
    cases hbegins with
    | space hspace =>
      obtain ⟨ws, text, rest, rfl, hws, htext, hrest⟩ := ih h
      exact ⟨b :: ws, text, rest, rfl, by simpa [Blank, hspace] using hws, htext, hrest⟩
    | mark hmark =>
      obtain ⟨rfl, hrest⟩ := List.cons.inj h
      exact ⟨[], [b], bs, rfl, .nil, .mark hmark, hrest⟩
    | quote hquote =>
      obtain ⟨text, ps, rest, rfl, htext, rfl, hrest⟩ := pieces_of_tokens hk h
      exact ⟨[], 34 :: (text ++ [34]), rest, by simp [hquote], .nil, .string htext, hrest⟩
    | null letter =>
      obtain ⟨rest, rfl, rfl, hrest⟩ := word_of_tokens hk h
      exact ⟨[], _, rest, by rw [letter]; rfl, .nil, .null, hrest⟩
    | true letter =>
      obtain ⟨rest, rfl, rfl, hrest⟩ := word_of_tokens hk h
      exact ⟨[], _, rest, by rw [letter]; rfl, .nil, .true, hrest⟩
    | false letter =>
      obtain ⟨rest, rfl, rfl, hrest⟩ := word_of_tokens hk h
      exact ⟨[], _, rest, by rw [letter]; rfl, .nil, .false, hrest⟩
    | minus minus =>
      obtain ⟨text, rest, n, rfl, hcontinues, rfl, hrest⟩ := numeral_of_tokens hk h
      exact ⟨[], 45 :: text, rest, by rw [minus]; rfl, .nil,
        .number (numeralText_of_continues hcontinues), hrest⟩
    | digit digit =>
      obtain ⟨text, rest, n, rfl, hcontinues, rfl, hrest⟩ := numeral_of_tokens hk h
      -- the first digit is read as after a minus, which is missing
      have hsign : Continues ⟨false, [], [], none⟩ .sign (b :: text) n :=
        ⟨_, _, by simp only [extend?, digit], hcontinues⟩
      exact ⟨[], b :: text, rest, rfl, .nil, .number (numeralText_of_continues hsign), hrest⟩
    | flaw => exact absurd (List.cons.inj h).1.symm hk

/-- A token that has begun is found, if only as a flaw. -/
theorem tokens_ne_nil {l : Lexeme} (hidle : l ≠ idle) (hstuck : l ≠ stuck) (bs : List UInt8) :
    l.tokens bs ≠ [] := by
  induction bs generalizing l with
  | nil =>
    cases l with
    | idle => exact absurd rfl hidle
    | stuck => exact absurd rfl hstuck
    | word | numeral | string | escape | unit => simp [tokens, finish]
  | cons b bs ih =>
    -- a byte completes a token or leaves one unfinished
    have hstep : (l.step b).1 ≠ [] ∨ (l.step b).2 ≠ idle ∧ (l.step b).2 ≠ stuck := by
      cases l with
      | idle => exact absurd rfl hidle
      | stuck => exact absurd rfl hstuck
      | word missing s =>
        simp only [step, stepWord]
        split
        · simp [flaw]
        · split <;> simp [flaw]
        · split <;> simp [flaw]
      | numeral n phase =>
        simp only [step, stepNumeral]
        split
        · simp
        · split <;> simp [flaw]
      | string pieces =>
        simp only [step, stepString]
        split
        · simp
        · split
          · simp
          · split <;> simp [flaw]
      | escape pieces =>
        simp only [step, stepEscape]
        split
        · simp
        · split <;> simp [flaw]
      | unit pieces value missing =>
        simp only [step, stepUnit]
        split
        · split <;> simp
        · simp [flaw]
    rw [tokens]
    rcases hstep with hfound | ⟨hidle', hstuck'⟩
    · exact fun h => hfound (List.append_eq_nil_iff.mp h).1
    · exact fun h => ih hidle' hstuck' (List.append_eq_nil_iff.mp h).2

/-- Where no token is found, there is only space. -/
theorem blank_of_tokens {bs : List UInt8} (h : idle.tokens bs = []) : Blank bs := by
  induction bs with
  | nil => exact .nil
  | cons b bs ih =>
    have hbegins := begins b
    rw [tokens, step] at h
    generalize begin b = begun at h hbegins
    cases hbegins with
    | space hspace =>
      have hrest : Blank bs := ih h
      simpa [Blank, hspace] using hrest
    | mark | flaw => cases h
    | quote | null | true | false | minus | digit =>
      exact absurd h (tokens_ne_nil (by simp) (by simp) bs)

end Lexeme

end ClusterClient.Json
