import ClusterClient.Proofs.Grammar

/-!
# Numerals, as the automaton reads them

The automaton of the lexer reads exactly the texts of the grammar, and gathers the numeral that
they write.

* **`Continues`**: what may follow in a phase of the automaton, up to the end of the numeral.
* **`Continues.digits`**, **`continues_digits`**: runs of digits, for any phase that gathers them.
* **`continues_first_iff`**: the phases that go on with a digit only.
* **`continues_sign_iff`**: everything after the minus.
* **`denotes_natural_iff`**: the texts of the natural numbers that 64 bits hold.
-/

namespace ClusterClient.Json

/-! ## Digits -/

/-- A decimal digit is the byte of its value. -/
theorem digit?_eq_some_iff {b : UInt8} {d : Nat} :
    digit? b = some d ↔ d < 10 ∧ b = (48 + d).toUInt8 := by
  have hb : b.toNat < 256 := UInt8.toNat_lt b
  unfold digit?
  constructor
  · intro h
    split at h
    · next hrange =>
      obtain rfl := Option.some.inj h
      refine ⟨by omega, ?_⟩
      rw [show 48 + (b.toNat - 48) = b.toNat by omega]
      exact (UInt8.ofNat_toNat).symm
    · cases h
  · rintro ⟨hd, rfl⟩
    have hnat : (48 + d).toUInt8.toNat = 48 + d := by
      simp only [UInt8.toNat_ofNat']
      omega
    rw [hnat, if_pos (by omega)]
    congr 1
    omega

/-- A digit more is ten times what came before, and the digit. -/
theorem natOfDigits_concat (ds : List Nat) (d : Nat) :
    natOfDigits (ds ++ [d]) = natOfDigits ds * 10 + d := by
  simp [natOfDigits]

theorem allDigits_cons {d : Nat} {ds : List Nat} : AllDigits (d :: ds) ↔ d < 10 ∧ AllDigits ds :=
  List.forall_mem_cons

/-- A row of digits has a first one. -/
theorem digits_iff {ds : List Nat} :
    Digits ds ↔ ∃ d more, ds = d :: more ∧ d < 10 ∧ AllDigits more := by
  unfold Digits
  constructor
  · rintro ⟨hne, hds⟩
    cases ds with
    | nil => exact absurd rfl hne
    | cons d more => exact ⟨d, more, rfl, allDigits_cons.mp hds⟩
  · rintro ⟨d, more, rfl, hds⟩
    exact ⟨List.cons_ne_nil d more, allDigits_cons.mpr hds⟩

/-- The text goes on with something else than a digit, or ends. -/
def NoDigit (bs : List UInt8) : Prop :=
  ∀ b ∈ bs.head?, digit? b = none

theorem noDigit_cons {b : UInt8} {bs : List UInt8} : NoDigit (b :: bs) ↔ digit? b = none := by
  simp [NoDigit]

/-! ## The automaton -/

open Lexeme in
/-- The automaton reads a text in a phase and may end after it. -/
def Continues (n : Numeral) (phase : NumeralPhase) : List UInt8 → Numeral → Prop
  | [], n' => phase.mayEnd = true ∧ n' = n
  | b :: bs, n' =>
    ∃ more next, extend? n phase b = some (more, next) ∧ Continues more next bs n'

section Runs

variable (numeral : List Nat → Numeral) {phase : NumeralPhase} {n' : Numeral}

/-- A phase that gathers digits reads as many as there are. -/
theorem Continues.digits
    (hgather : ∀ ds b d, digit? b = some d →
      Lexeme.extend? (numeral ds) phase b = some (numeral (ds ++ [d]), phase))
    {bs : List UInt8} {before : List Nat} (h : Continues (numeral before) phase bs n') :
    ∃ ds tail, AllDigits ds ∧ bs = digitBytes ds ++ tail ∧ NoDigit tail ∧
      Continues (numeral (before ++ ds)) phase tail n' := by
  induction bs generalizing before with
  | nil => exact ⟨[], [], by simp [AllDigits], rfl, by simp [NoDigit], by simpa using h⟩
  | cons b bs ih =>
    cases hb : digit? b with
    | none => exact ⟨[], b :: bs, by simp [AllDigits], rfl, noDigit_cons.mpr hb, by simpa using h⟩
    | some d =>
      obtain ⟨more, next, hextend, hrest⟩ := h
      rw [hgather before b d hb] at hextend
      cases hextend
      obtain ⟨ds, tail, hds, rfl, htail, hcontinues⟩ := ih hrest
      obtain ⟨hd, rfl⟩ := digit?_eq_some_iff.mp hb
      exact ⟨d :: ds, tail, allDigits_cons.mpr ⟨hd, hds⟩, rfl, htail, by simpa using hcontinues⟩

/-- Digits continue a phase that gathers them. -/
theorem continues_digits
    (hgather : ∀ ds b d, digit? b = some d →
      Lexeme.extend? (numeral ds) phase b = some (numeral (ds ++ [d]), phase))
    {ds : List Nat} (hds : AllDigits ds) (before : List Nat) {tail : List UInt8}
    (h : Continues (numeral (before ++ ds)) phase tail n') :
    Continues (numeral before) phase (digitBytes ds ++ tail) n' := by
  induction ds generalizing before with
  | nil => simpa [digitBytes] using h
  | cons d ds ih =>
    obtain ⟨hd, hrest⟩ := allDigits_cons.mp hds
    refine ⟨_, _, hgather before _ d (digit?_eq_some_iff.mpr ⟨hd, rfl⟩), ih hrest _ ?_⟩
    simpa using h

end Runs

/-! ## The phases, from the last one to the first -/

section Phases

variable {negative : Bool} {whole fraction : List Nat} {n' : Numeral} {text : List UInt8}

/-- A phase that goes on with a digit only. -/
theorem continues_first_iff {n : Numeral} {phase : NumeralPhase} {first : Nat → Numeral}
    {next : Nat → NumeralPhase}
    (hphase : phase = .sign ∨ phase = .point ∨ ∃ minus, phase = .markSign minus)
    (hfirst : ∀ (b : UInt8) (d : Nat), digit? b = some d →
      Lexeme.extend? n phase b = some (first d, next d)) :
    Continues n phase text n' ↔
      ∃ d bs, d < 10 ∧ text = (48 + d).toUInt8 :: bs ∧ Continues (first d) (next d) bs n' := by
  constructor
  · intro h
    cases text with
    -- none of the three phases is an end
    | nil => rcases hphase with rfl | rfl | ⟨minus, rfl⟩ <;> cases h.1
    | cons b bs =>
      obtain ⟨more, after, hextend, hrest⟩ := h
      cases hb : digit? b with
      | none => cases (Lexeme.extend?_of_none hb n hphase).symm.trans hextend
      | some d =>
        rw [hfirst b d hb] at hextend
        cases hextend
        obtain ⟨hd, rfl⟩ := digit?_eq_some_iff.mp hb
        exact ⟨d, bs, hd, rfl, hrest⟩
  · rintro ⟨d, bs, hd, rfl, hrest⟩
    exact ⟨_, _, hfirst _ d (digit?_eq_some_iff.mpr ⟨hd, rfl⟩), hrest⟩

/-- An exponent is gathered digit by digit, below zero after a minus. -/
theorem signed_step (minus : Bool) (v d : Nat) :
    (if minus then signed minus v * 10 - d else signed minus v * 10 + d) =
      signed minus (v * 10 + d) := by
  cases minus with
  | true =>
    simp only [signed, if_true]
    omega
  | false =>
    simp only [signed, Bool.false_eq_true, if_false]
    omega

/-- Inside an exponent: more digits, or the end. -/
theorem continues_exponent_iff {minus : Bool} {before : List Nat} :
    Continues ⟨negative, whole, fraction, some (signed minus (natOfDigits before))⟩
        (.exponent minus) text n' ↔
      ∃ ds, AllDigits ds ∧ text = digitBytes ds ∧
        n' = ⟨negative, whole, fraction, some (signed minus (natOfDigits (before ++ ds)))⟩ := by
  let numeral (ds : List Nat) : Numeral :=
    ⟨negative, whole, fraction, some (signed minus (natOfDigits ds))⟩
  have hgather : ∀ (ds : List Nat) (b : UInt8) (d : Nat), digit? b = some d →
      Lexeme.extend? (numeral ds) (.exponent minus) b =
        some (numeral (ds ++ [d]), .exponent minus) := by
    intro ds b d hb
    simp only [numeral, Lexeme.extend?, hb, Option.getD_some, signed_step, natOfDigits_concat]
  constructor
  · -- after the digits only the end is left: an exponent goes on with nothing else
    intro h
    obtain ⟨ds, tail, hds, rfl, htail, hcontinues⟩ := Continues.digits numeral hgather h
    cases tail with
    | nil => exact ⟨ds, hds, by simp, hcontinues.2⟩
    | cons b bs =>
      obtain ⟨more, next, hextend, -⟩ := hcontinues
      simp [Lexeme.extend?, noDigit_cons.mp htail] at hextend
  · rintro ⟨ds, hds, rfl, rfl⟩
    have h : Continues (numeral before) _ (digitBytes ds ++ []) _ :=
      continues_digits numeral hgather hds before ⟨rfl, rfl⟩
    rwa [List.append_nil] at h

/-- After the sign of an exponent: one digit or more. -/
theorem continues_markSign_iff {minus : Bool} :
    Continues ⟨negative, whole, fraction, none⟩ (.markSign minus) text n' ↔
      ∃ ds, Digits ds ∧ text = digitBytes ds ∧
        n' = ⟨negative, whole, fraction, some (signed minus (natOfDigits ds))⟩ := by
  have hfirst : ∀ (b : UInt8) (d : Nat), digit? b = some d →
      Lexeme.extend? ⟨negative, whole, fraction, none⟩ (.markSign minus) b =
        some (⟨negative, whole, fraction, some (signed minus (natOfDigits [d]))⟩,
          .exponent minus) := by
    intro b d hb
    cases minus <;> simp [Lexeme.extend?, hb, signed, natOfDigits]
  rw [continues_first_iff (.inr (.inr ⟨minus, rfl⟩)) hfirst]
  constructor
  · rintro ⟨d, bs, hd, rfl, hrest⟩
    obtain ⟨ds, hds, rfl, rfl⟩ := continues_exponent_iff.mp hrest
    exact ⟨d :: ds, digits_iff.mpr ⟨d, ds, rfl, hd, hds⟩, rfl, rfl⟩
  · rintro ⟨ds, hds, rfl, rfl⟩
    obtain ⟨d, more, rfl, hd, hmore⟩ := digits_iff.mp hds
    exact ⟨d, _, hd, rfl, continues_exponent_iff.mpr ⟨more, hmore, rfl, rfl⟩⟩

/-- After the mark of an exponent: a sign, if there is one, and digits. -/
theorem continues_mark_iff :
    Continues ⟨negative, whole, fraction, none⟩ .mark text n' ↔
      ∃ sign minus ds, SignText sign minus ∧ Digits ds ∧ text = sign ++ digitBytes ds ∧
        n' = ⟨negative, whole, fraction, some (signed minus (natOfDigits ds))⟩ := by
  have hfirst : ∀ (b : UInt8) (d : Nat), digit? b = some d →
      Lexeme.extend? ⟨negative, whole, fraction, none⟩ .mark b =
        some (⟨negative, whole, fraction, some (signed false (natOfDigits [d]))⟩,
          .exponent false) := by
    intro b d hb
    simp [Lexeme.extend?, hb, signed, natOfDigits]
  constructor
  · intro h
    cases text with
    | nil => cases h.1
    | cons b bs =>
      obtain ⟨more, next, hextend, hrest⟩ := h
      cases hb : digit? b with
      | none =>
        -- without a digit there must be a sign
        simp only [Lexeme.extend?, hb] at hextend
        split at hextend
        · next hplus =>
          cases hextend
          obtain ⟨ds, hds, rfl, rfl⟩ := continues_markSign_iff.mp hrest
          exact ⟨[43], false, ds, .plus, hds, by rw [hplus]; rfl, rfl⟩
        · split at hextend
          · next hminus =>
            cases hextend
            obtain ⟨ds, hds, rfl, rfl⟩ := continues_markSign_iff.mp hrest
            exact ⟨[45], true, ds, .minus, hds, by rw [hminus]; rfl, rfl⟩
          · cases hextend
      | some d =>
        -- without a sign the digits begin at once
        rw [hfirst b d hb] at hextend
        cases hextend
        obtain ⟨ds, hds, rfl, rfl⟩ := continues_exponent_iff.mp hrest
        obtain ⟨hd, rfl⟩ := digit?_eq_some_iff.mp hb
        exact ⟨[], false, d :: ds, .none, digits_iff.mpr ⟨d, ds, rfl, hd, hds⟩, rfl, rfl⟩
  · rintro ⟨sign, minus, ds, hsign, hds, rfl, rfl⟩
    cases hsign with
    | none =>
      obtain ⟨d, more, rfl, hd, hmore⟩ := digits_iff.mp hds
      exact ⟨_, _, hfirst _ d (digit?_eq_some_iff.mpr ⟨hd, rfl⟩),
        continues_exponent_iff.mpr ⟨more, hmore, rfl, rfl⟩⟩
    | plus => exact ⟨_, _, rfl, continues_markSign_iff.mpr ⟨ds, hds, rfl, rfl⟩⟩
    | minus => exact ⟨_, _, rfl, continues_markSign_iff.mpr ⟨ds, hds, rfl, rfl⟩⟩

/-- A phase in which an exponent or the end of the numeral may follow. -/
def MayMark (phase : NumeralPhase) : Prop :=
  phase = .zero ∨ phase = .whole ∨ phase = .fraction

/-- An exponent may follow wherever the numeral may end. -/
theorem continues_of_exponentText {phase : NumeralPhase} (hphase : MayMark phase)
    {exponent : Option Int} (h : ExponentText text exponent) :
    Continues ⟨negative, whole, fraction, none⟩ phase text
      ⟨negative, whole, fraction, exponent⟩ := by
  cases h with
  | none => rcases hphase with rfl | rfl | rfl <;> exact ⟨rfl, rfl⟩
  | @some mark sign minus ds letter sign_text digits =>
    refine ⟨⟨negative, whole, fraction, none⟩, .mark, ?_,
      continues_mark_iff.mpr ⟨sign, minus, ds, sign_text, digits, rfl, rfl⟩⟩
    -- the mark is taken in every phase, as a small letter or a capital
    rcases hphase with rfl | rfl | rfl <;> rcases letter with rfl | rfl <;> rfl

/-- An exponent, read from its mark on. -/
theorem exponentText_of_continues {mark : UInt8} (letter : mark = 101 ∨ mark = 69)
    (h : Continues ⟨negative, whole, fraction, none⟩ .mark text n') :
    ∃ exponent, ExponentText (mark :: text) exponent ∧
      n' = ⟨negative, whole, fraction, exponent⟩ := by
  obtain ⟨sign, minus, ds, hsign, hds, rfl, rfl⟩ := continues_mark_iff.mp h
  exact ⟨_, .some letter hsign hds, rfl⟩

/-- Inside a fraction: more digits, and an exponent, if there is one. -/
theorem continues_fraction_iff {before : List Nat} :
    Continues ⟨negative, whole, before, none⟩ .fraction text n' ↔
      ∃ ds mark exponent, AllDigits ds ∧ ExponentText mark exponent ∧
        text = digitBytes ds ++ mark ∧ n' = ⟨negative, whole, before ++ ds, exponent⟩ := by
  let numeral (ds : List Nat) : Numeral := ⟨negative, whole, ds, none⟩
  have hgather : ∀ (ds : List Nat) (b : UInt8) (d : Nat), digit? b = some d →
      Lexeme.extend? (numeral ds) .fraction b = some (numeral (ds ++ [d]), .fraction) := by
    intro ds b d hb
    simp only [numeral, Lexeme.extend?, hb]
  constructor
  · intro h
    obtain ⟨ds, tail, hds, rfl, htail, hcontinues⟩ := Continues.digits numeral hgather h
    cases tail with
    | nil => exact ⟨ds, [], none, hds, .none, rfl, hcontinues.2⟩
    | cons b bs =>
      -- what stops the digits is the mark of an exponent
      obtain ⟨more, next, hextend, hrest⟩ := hcontinues
      simp only [Lexeme.extend?, noDigit_cons.mp htail] at hextend
      split at hextend
      · next hletter =>
        cases hextend
        obtain ⟨exponent, hexponent, rfl⟩ := exponentText_of_continues hletter hrest
        exact ⟨ds, _, exponent, hds, hexponent, rfl, rfl⟩
      · cases hextend
  · rintro ⟨ds, mark, exponent, hds, hexponent, rfl, rfl⟩
    exact continues_digits numeral hgather hds before
      (continues_of_exponentText (.inr (.inr rfl)) hexponent)

/-- After the point: one digit or more, and an exponent, if there is one. -/
theorem continues_point_iff :
    Continues ⟨negative, whole, [], none⟩ .point text n' ↔
      ∃ ds mark exponent, Digits ds ∧ ExponentText mark exponent ∧
        text = digitBytes ds ++ mark ∧ n' = ⟨negative, whole, ds, exponent⟩ := by
  have hfirst : ∀ (b : UInt8) (d : Nat), digit? b = some d →
      Lexeme.extend? ⟨negative, whole, [], none⟩ .point b =
        some (⟨negative, whole, [d], none⟩, .fraction) := by
    intro b d hb
    simp only [Lexeme.extend?, hb]
  rw [continues_first_iff (.inr (.inl rfl)) hfirst]
  constructor
  · rintro ⟨d, bs, hd, rfl, hrest⟩
    obtain ⟨ds, mark, exponent, hds, hexponent, rfl, rfl⟩ := continues_fraction_iff.mp hrest
    exact ⟨d :: ds, mark, exponent, digits_iff.mpr ⟨d, ds, rfl, hd, hds⟩, hexponent, rfl, rfl⟩
  · rintro ⟨ds, mark, exponent, hds, hexponent, rfl, rfl⟩
    obtain ⟨d, more, rfl, hd, hmore⟩ := digits_iff.mp hds
    exact ⟨d, _, hd, rfl,
      continues_fraction_iff.mpr ⟨more, mark, exponent, hmore, hexponent, rfl, rfl⟩⟩

/-- What may follow the digits before the point. -/
theorem continues_point_or_mark_iff {phase : NumeralPhase}
    (hphase : phase = .zero ∨ phase = .whole) (htext : NoDigit text) :
    Continues ⟨negative, whole, [], none⟩ phase text n' ↔
      ∃ point mark fraction exponent, FractionText point fraction ∧ ExponentText mark exponent ∧
        text = point ++ mark ∧ n' = ⟨negative, whole, fraction, exponent⟩ := by
  have hmay : MayMark phase := by
    rcases hphase with rfl | rfl
    · exact .inl rfl
    · exact .inr (.inl rfl)
  constructor
  · intro h
    cases text with
    | nil => exact ⟨[], [], [], none, .none, .none, rfl, h.2⟩
    | cons b bs =>
      obtain ⟨more, next, hextend, hrest⟩ := h
      -- both phases go on alike where no digit follows
      have hextend : (if b = 46 then some (⟨negative, whole, [], none⟩, NumeralPhase.point)
          else if b = 101 ∨ b = 69 then some (⟨negative, whole, [], none⟩, .mark) else none) =
            some (more, next) := by
        rw [← hextend]
        rcases hphase with rfl | rfl <;> simp only [Lexeme.extend?, noDigit_cons.mp htext]
      split at hextend
      · next hpoint =>
        cases hextend
        obtain ⟨ds, mark, exponent, hds, hexponent, rfl, rfl⟩ := continues_point_iff.mp hrest
        exact ⟨_, mark, ds, exponent, .some hds, hexponent, by rw [hpoint]; rfl, rfl⟩
      · split at hextend
        · next hletter =>
          cases hextend
          obtain ⟨exponent, hexponent, rfl⟩ := exponentText_of_continues hletter hrest
          exact ⟨[], _, [], exponent, .none, hexponent, rfl, rfl⟩
        · cases hextend
  · rintro ⟨point, mark, fraction, exponent, hfraction, hexponent, rfl, rfl⟩
    cases hfraction with
    | none => exact continues_of_exponentText hmay hexponent
    | some hds =>
      refine ⟨⟨negative, whole, [], none⟩, .point, ?_,
        continues_point_iff.mpr ⟨_, mark, exponent, hds, hexponent, rfl, rfl⟩⟩
      rcases hphase with rfl | rfl <;> rfl

/-- An exponent begins with its mark and not with a digit. -/
theorem ExponentText.noDigit {mark : List UInt8} {exponent : Option Int}
    (h : ExponentText mark exponent) : NoDigit mark := by
  cases h with
  | none => simp [NoDigit]
  | some letter => rcases letter with rfl | rfl <;> exact noDigit_cons.mpr rfl

/-- What follows the whole part begins with a point or a mark and not with a digit. -/
theorem FractionText.noDigit {point mark : List UInt8} (h : FractionText point fraction)
    (hmark : NoDigit mark) : NoDigit (point ++ mark) := by
  cases h with
  | none => exact hmark
  | some digits => exact noDigit_cons.mpr rfl

/-- No digit follows a leading zero. -/
theorem Continues.noDigit_of_zero {n : Numeral} (h : Continues n .zero text n') : NoDigit text := by
  cases text with
  | nil => simp [NoDigit]
  | cons b bs =>
    obtain ⟨more, next, hextend, -⟩ := h
    cases hb : digit? b with
    | none => exact noDigit_cons.mpr hb
    | some d => simp [Lexeme.extend?, hb] at hextend

/-- **Everything after the minus.** -/
theorem continues_sign_iff :
    Continues ⟨negative, [], [], none⟩ .sign text n' ↔
      ∃ whole point mark fraction exponent, Digits whole ∧ (whole.head? = some 0 → whole = [0]) ∧
        FractionText point fraction ∧ ExponentText mark exponent ∧
        text = digitBytes whole ++ point ++ mark ∧ n' = ⟨negative, whole, fraction, exponent⟩ := by
  let numeral (ds : List Nat) : Numeral := ⟨negative, ds, [], none⟩
  have hgather : ∀ (ds : List Nat) (b : UInt8) (d : Nat), digit? b = some d →
      Lexeme.extend? (numeral ds) .whole b = some (numeral (ds ++ [d]), .whole) := by
    intro ds b d hb
    simp only [numeral, Lexeme.extend?, hb]
  have hfirst : ∀ (b : UInt8) (d : Nat), digit? b = some d →
      Lexeme.extend? ⟨negative, [], [], none⟩ .sign b =
        some (⟨negative, [d], [], none⟩, if d = 0 then .zero else .whole) := by
    intro b d hb
    simp only [Lexeme.extend?, hb]
  rw [continues_first_iff (.inl rfl) hfirst]
  constructor
  · rintro ⟨d, bs, hd, rfl, hrest⟩
    by_cases hzero : d = 0
    · -- no digit may follow a zero
      subst hzero
      obtain ⟨point, mark, fraction, exponent, hfraction, hexponent, rfl, rfl⟩ :=
        (continues_point_or_mark_iff (.inl rfl) hrest.noDigit_of_zero).mp hrest
      exact ⟨[0], point, mark, fraction, exponent,
        digits_iff.mpr ⟨0, [], rfl, hd, by simp [AllDigits]⟩, fun _ => rfl, hfraction, hexponent,
        by simp [digitBytes], rfl⟩
    · -- any other first digit is followed by more of them
      rw [if_neg hzero] at hrest
      obtain ⟨ds, tail, hds, rfl, htail, hcontinues⟩ := Continues.digits numeral hgather hrest
      obtain ⟨point, mark, fraction, exponent, hfraction, hexponent, rfl, rfl⟩ :=
        (continues_point_or_mark_iff (.inr rfl) htail).mp hcontinues
      exact ⟨d :: ds, point, mark, fraction, exponent, digits_iff.mpr ⟨d, ds, rfl, hd, hds⟩,
        fun h => absurd (Option.some.inj h) hzero, hfraction, hexponent, by simp [digitBytes], rfl⟩
  · rintro ⟨whole, point, mark, fraction, exponent, hdigits, hleading, hfraction, hexponent, rfl, rfl⟩
    obtain ⟨d, ds, rfl, hd, hds⟩ := digits_iff.mp hdigits
    have htail := hfraction.noDigit hexponent.noDigit
    refine ⟨d, digitBytes ds ++ point ++ mark, hd, by simp [digitBytes], ?_⟩
    by_cases hzero : d = 0
    · subst hzero
      -- a leading zero stands alone
      obtain rfl : ds = [] := by simpa using hleading rfl
      exact (continues_point_or_mark_iff (.inl rfl) htail).mpr
        ⟨point, mark, fraction, exponent, hfraction, hexponent, rfl, rfl⟩
    · rw [if_neg hzero, List.append_assoc]
      exact continues_digits numeral hgather hds [d]
        ((continues_point_or_mark_iff (.inr rfl) htail).mpr
          ⟨point, mark, fraction, exponent, hfraction, hexponent, rfl, rfl⟩)

/-- **What the automaton reads after the minus is a numeral**, with the minus if it is negative. -/
theorem numeralText_of_continues (h : Continues ⟨negative, [], [], none⟩ .sign text n') :
    NumeralText ((if negative then [45] else []) ++ text) n' := by
  obtain ⟨whole, point, mark, fraction, exponent, digits, leading, hfraction, hexponent, rfl, rfl⟩ :=
    continues_sign_iff.mp h
  rw [← List.append_assoc, ← List.append_assoc]
  exact .parts digits leading hfraction hexponent

/-- **A numeral is a minus, if it is negative, and what the automaton reads after it.** -/
theorem continues_of_numeralText (h : NumeralText text n') :
    ∃ negative after, text = (if negative then [45] else []) ++ after ∧
      Continues ⟨negative, [], [], none⟩ .sign after n' := by
  obtain ⟨digits, leading, fraction_text, exponent_text⟩ := h
  refine ⟨_, _, by rw [List.append_assoc, List.append_assoc], continues_sign_iff.mpr ?_⟩
  exact ⟨_, _, _, _, _, digits, leading, fraction_text, exponent_text,
    (List.append_assoc ..).symm, rfl⟩

end Phases

/-! ## Natural numbers -/

/-- A numeral of a natural number has neither minus nor fraction nor exponent. -/
theorem Numeral.natural_of_number? {m : Numeral} {n : Nat}
    (h : m.number? = some (.integer n)) :
    m.fraction = [] ∧ m.exponent = none ∧ m.negative = false ∧ natOfDigits m.whole = n ∧
      n < Nat.pow 2 64 := by
  obtain ⟨fraction, exponent, value, zero, -, most⟩ := number?_eq_integer_iff.mp h
  have hnegative : m.negative = false := by
    refine Bool.eq_false_iff.mpr fun hnegative => ?_
    rw [signed, if_pos hnegative] at value
    have := zero hnegative
    omega
  rw [signed, hnegative, if_neg Bool.false_ne_true] at value
  exact ⟨fraction, exponent, hnegative, (Int.ofNat.inj value).symm, Int.ofNat_lt.mp most⟩

/-- **A text that denotes a natural number is its digits**, with space around them. -/
theorem denotes_natural_iff {room : Nat} {bs : List UInt8} {n : Nat} :
    Denotes room bs (.number (.integer n)) ↔
      ∃ ws ds ws', bs = ws ++ digitBytes ds ++ ws' ∧ Blank ws ∧ Blank ws' ∧ Digits ds ∧
        (ds.head? = some 0 → ds = [0]) ∧ natOfDigits ds = n ∧ n < Nat.pow 2 64 := by
  constructor
  · intro h
    generalize hv : Value.number (.integer n) = v at h
    induction h with
    | null | true | false | string | array | object => cases hv
    | number text number =>
      cases hv
      obtain ⟨hfraction, hexponent, hnegative, hn, hlt⟩ := Numeral.natural_of_number? number
      cases text with
      | @parts negative ds fraction exponent point mark digits leading fraction_text exponent_text =>
        subst hfraction hexponent hnegative
        -- a fraction has one digit at the least, so there is no point
        obtain rfl : point = [] := by
          cases fraction_text with
          | none => rfl
          | some digits => exact absurd rfl digits.1
        cases exponent_text
        exact ⟨[], ds, [], by simp, .nil, .nil, digits, leading, hn, hlt⟩
    | padded before _ after ih =>
      -- space around a numeral is space around its digits
      obtain ⟨ws, ds, ws', rfl, hws, hws', hds⟩ := ih hv
      exact ⟨_, ds, _, by simp, before.append hws, hws'.append after, hds⟩
  · rintro ⟨ws, ds, ws', rfl, hws, hws', digits, leading, hn, hlt⟩
    have hinteger : (⟨false, ds, [], none⟩ : Numeral).IsInteger n :=
      ⟨rfl, rfl, congrArg Int.ofNat hn.symm, nofun, by omega, Int.ofNat_lt.mpr hlt⟩
    have htext : NumeralText _ ⟨false, ds, [], none⟩ := .parts digits leading .none .none
    rw [List.append_nil, List.append_nil] at htext
    exact .padded hws (.number htext hinteger.number?) hws'

end ClusterClient.Json
