import ClusterClient.Json.Decoder

/-!
# What a JSON text denotes

The grammar of texts with the value that each denotes, without an automaton. Nothing here reads
bytes one by one: a text is put together from the texts of its parts.

* **`NumeralText`**: a minus, digits without a leading zero, a fraction, an exponent.
* **`StringText`**: UTF-8 characters, short escapes, escaped code units and surrogate pairs.
* **`Denotes`**: values, with the number of arrays and objects that may still be nested.
* **`ObjectText`**: a body that is an object, with its members in the order of the text.
-/

namespace ClusterClient.Json

def Blank (ws : List UInt8) : Prop :=
  ∀ b ∈ ws, isSpace b = true

/-! ## Numerals -/

def digitBytes (ds : List Nat) : List UInt8 :=
  ds.map fun d => (48 + d).toUInt8

def natOfDigits (ds : List Nat) : Nat :=
  ds.foldl (fun v d => v * 10 + d) 0

def signed (negative : Bool) (n : Nat) : Int :=
  if negative then -n else n

def AllDigits (ds : List Nat) : Prop :=
  ∀ d ∈ ds, d < 10

/-- One or more decimal digits. -/
def Digits (ds : List Nat) : Prop :=
  ds ≠ [] ∧ AllDigits ds

inductive FractionText : List UInt8 → List Nat → Prop where
  | none : FractionText [] []
  | some {ds : List Nat} (digits : Digits ds) : FractionText (46 :: digitBytes ds) ds

inductive SignText : List UInt8 → Bool → Prop where
  | none : SignText [] false
  | plus : SignText [43] false
  | minus : SignText [45] true

inductive ExponentText : List UInt8 → Option Int → Prop where
  | none : ExponentText [] none
  | some {mark : UInt8} {sign : List UInt8} {negative : Bool} {ds : List Nat}
      (letter : mark = 101 ∨ mark = 69) (sign_text : SignText sign negative)
      (digits : Digits ds) :
      ExponentText (mark :: (sign ++ digitBytes ds)) (some (signed negative (natOfDigits ds)))

/-- The text of a numeral. Two digits never begin with a zero. -/
inductive NumeralText : List UInt8 → Numeral → Prop where
  | parts {negative : Bool} {whole fraction : List Nat} {exponent : Option Int}
      {point mark : List UInt8} (digits : Digits whole)
      (leading : whole.head? = some 0 → whole = [0]) (fraction_text : FractionText point fraction)
      (exponent_text : ExponentText mark exponent) :
      NumeralText ((if negative then [45] else []) ++ digitBytes whole ++ point ++ mark)
        ⟨negative, whole, fraction, exponent⟩

/-- The numeral writes an integer that 64 bits hold, signed or unsigned: it has neither fraction nor
exponent, and is no zero with a minus. -/
structure Numeral.IsInteger (n : Numeral) (i : Int) : Prop where
  fraction : n.fraction = []
  exponent : n.exponent = none
  value : i = signed n.negative (natOfDigits n.whole)
  zero : n.negative = true → i ≠ 0
  least : -(Nat.pow 2 63 : Int) ≤ i
  most : i < (Nat.pow 2 64 : Int)

namespace Numeral

variable {n : Numeral} {i : Int}

/-- A numeral without fraction and exponent writes a whole number. -/
theorem isFractional_eq_false_iff : n.isFractional = false ↔ n.fraction = [] ∧ n.exponent = none := by
  simp [isFractional]

/-- An integer that 64 bits hold is read as that. -/
theorem IsInteger.number? (h : n.IsInteger i) : n.number? = some (.integer i) := by
  obtain ⟨fraction, exponent, rfl, zero, least, most⟩ := h
  have hvalue : n.whole.foldl (fun v d => v * 10 + d) 0 = natOfDigits n.whole := rfl
  unfold Numeral.number?
  simp only [hvalue, isFractional_eq_false_iff.mpr ⟨fraction, exponent⟩, Bool.false_eq_true,
    if_false]
  cases hnegative : n.negative with
  | true =>
    simp only [signed, hnegative, if_true, forall_const] at zero least ⊢
    rw [if_pos (by omega)]
  | false =>
    simp only [signed, hnegative, Bool.false_eq_true, if_false] at most ⊢
    rw [if_pos (by omega)]

/-- Every other numeral is read as a double, if it is read at all. -/
theorem number?_eq_real? (h : ∀ i, ¬ n.IsInteger i) : n.number? = n.real? := by
  have hvalue : n.whole.foldl (fun v d => v * 10 + d) 0 = natOfDigits n.whole := rfl
  unfold Numeral.number?
  simp only [hvalue]
  split
  · rfl
  · next hwhole =>
    obtain ⟨hfraction, hexponent⟩ := isFractional_eq_false_iff.mp (by simpa using hwhole)
    split
    · next hnegative =>
      -- with a minus: from one to the 63rd power of two
      split
      · next hbounds =>
        refine absurd ⟨hfraction, hexponent, ?_, ?_, ?_, ?_⟩ (h (-natOfDigits n.whole))
        · simp [signed, hnegative]
        all_goals omega
      · rfl
    · next hpositive =>
      -- without: below the 64th
      split
      · next hbound =>
        refine absurd ⟨hfraction, hexponent, ?_, ?_, ?_, ?_⟩ (h (natOfDigits n.whole))
        · simp [signed, hpositive]
        · exact fun hnegative => absurd hnegative hpositive
        all_goals omega
      · rfl

/-- **A numeral is read as an integer** where 64 bits hold one of its value, and in no other
case. -/
theorem number?_eq_integer_iff : n.number? = some (.integer i) ↔ n.IsInteger i := by
  refine ⟨fun hread => ?_, IsInteger.number?⟩
  by_cases h : ∃ j, n.IsInteger j
  · obtain ⟨j, hj⟩ := h
    obtain rfl : j = i := by simpa using hj.number?.symm.trans hread
    exact hj
  · -- a double is no integer
    rw [number?_eq_real? (not_exists.mp h), real?, Option.map_eq_some_iff] at hread
    obtain ⟨magnitude, -, heq⟩ := hread
    cases heq

end Numeral

/-! ## Strings -/

/-- The number of hexadecimal digits after others. -/
def hexFold? (v : Nat) : List UInt8 → Option Nat
  | [] => some v
  | b :: bs =>
    match hexDigit? b with
    | some d => hexFold? (v * 16 + d) bs
    | none => none

/-- Four hexadecimal digits and the code unit that they write. -/
def CodeUnit (hs : List UInt8) (n : Nat) : Prop :=
  hs.length = 4 ∧ hexFold? 0 hs = some n

/-- What stands between the quotes of a string. -/
inductive StringText : List UInt8 → List Char → Prop where
  | nil : StringText [] []
  | plain {c : Char} {bs : List UInt8} {cs : List Char} (least : 32 ≤ c.toNat)
      (quote : c.toNat ≠ 34) (backslash : c.toNat ≠ 92) (rest : StringText bs cs) :
      StringText (String.utf8EncodeChar c ++ bs) (c :: cs)
  | escape {b : UInt8} {n : Nat} {bs : List UInt8} {cs : List Char}
      (code : escapeCode? b = some n) (rest : StringText bs cs) :
      StringText (92 :: b :: bs) (Char.ofNat n :: cs)
  /-- A code unit that is a character by itself. -/
  | single {hs bs : List UInt8} {n : Nat} {cs : List Char} (unit : CodeUnit hs n)
      (whole : ¬(0xD800 ≤ n ∧ n < 0xE000)) (rest : StringText bs cs) :
      StringText (92 :: 117 :: (hs ++ bs)) (Char.ofNat n :: cs)
  /-- A high surrogate and a low one. -/
  | pair {hs ls bs : List UInt8} {high low : Nat} {cs : List Char} (first : CodeUnit hs high)
      (second : CodeUnit ls low) (is_high : 0xD800 ≤ high ∧ high < 0xDC00)
      (is_low : 0xDC00 ≤ low ∧ low < 0xE000) (rest : StringText bs cs) :
      StringText (92 :: 117 :: (hs ++ 92 :: 117 :: (ls ++ bs)))
        (Char.ofNat ((high - 0xD800) * 0x400 + (low - 0xDC00) + 0x10000) :: cs)

/-- A string with its quotes. -/
def Quoted (bs : List UInt8) (s : String) : Prop :=
  ∃ inner, bs = 34 :: (inner ++ [34]) ∧ StringText inner s.toList

/-! ## Values -/

/-- Parts with commas between them; no parts may be so with space. -/
inductive Laid : List UInt8 → List (List UInt8) → Prop where
  | blank {ws : List UInt8} (blank : Blank ws) : Laid ws []
  | commas (p : List UInt8) (ps : List (List UInt8)) : Laid (p ++ ps.flatMap (44 :: ·)) (p :: ps)

/-- A member of an object as it is written: the text of its name and that of its value. -/
structure Entry where
  label : List UInt8
  name : String
  body : List UInt8
  value : Value

namespace Entry

def text (e : Entry) : List UInt8 :=
  e.label ++ 58 :: e.body

def member (e : Entry) : String × Value :=
  (e.name, e.value)

/-- The label is the name, quoted, with space around it. -/
def Labelled (e : Entry) : Prop :=
  ∃ ws quoted ws', Blank ws ∧ Blank ws' ∧ Quoted quoted e.name ∧ e.label = ws ++ quoted ++ ws'

end Entry

/-- The value that a text denotes, given the number of arrays and objects that may still be nested.
There may be space around it. -/
inductive Denotes : Nat → List UInt8 → Value → Prop where
  | null {room : Nat} : Denotes room [110, 117, 108, 108] .null
  | true {room : Nat} : Denotes room [116, 114, 117, 101] (.bool true)
  | false {room : Nat} : Denotes room [102, 97, 108, 115, 101] (.bool false)
  /-- A numeral beyond the doubles denotes nothing. -/
  | number {room : Nat} {bs : List UInt8} {n : Numeral} {x : Number} (text : NumeralText bs n)
      (number : n.number? = some x) : Denotes room bs (.number x)
  | string {room : Nat} {bs : List UInt8} {s : String} (text : Quoted bs s) :
      Denotes room bs (.string s)
  | array {room : Nat} {inner : List UInt8} {parts : List (List UInt8 × Value)}
      (laid : Laid inner (parts.map Prod.fst)) (values : ∀ p ∈ parts, Denotes room p.1 p.2) :
      Denotes (room + 1) (91 :: (inner ++ [93])) (.array (parts.map Prod.snd))
  | object {room : Nat} {inner : List UInt8} {es : List Entry}
      (laid : Laid inner (es.map Entry.text)) (labels : ∀ e ∈ es, e.Labelled)
      (values : ∀ e ∈ es, Denotes room e.body e.value) :
      Denotes (room + 1) (123 :: (inner ++ [125])) (.ofMembers (es.map Entry.member))
  | padded {room : Nat} {ws bs ws' : List UInt8} {v : Value} (before : Blank ws)
      (text : Denotes room bs v) (after : Blank ws') : Denotes room (ws ++ bs ++ ws') v

/-- An object with its members in the order of the text. -/
def ObjectText (room : Nat) (bs : List UInt8) (ms : List (String × Value)) : Prop :=
  ∃ (ws inner ws' : List UInt8) (es : List Entry), Blank ws ∧ Blank ws' ∧
    bs = ws ++ 123 :: (inner ++ 125 :: ws') ∧ Laid inner (es.map Entry.text) ∧
    (∀ e ∈ es, e.Labelled) ∧
    (∀ e ∈ es, Denotes room e.body e.value) ∧ ms = es.map Entry.member

theorem Blank.nil : Blank [] := by
  simp [Blank]

theorem Blank.append {ws ws' : List UInt8} (h : Blank ws) (h' : Blank ws') : Blank (ws ++ ws') := by
  intro b hb
  rcases List.mem_append.mp hb with hb | hb
  · exact h b hb
  · exact h' b hb

/-- Space in front of a text changes nothing. -/
theorem Denotes.before {room : Nat} {ws bs : List UInt8} {v : Value} (h : Blank ws)
    (text : Denotes room bs v) : Denotes room (ws ++ bs) v := by
  have := Denotes.padded h text Blank.nil
  rwa [List.append_nil] at this

/-- Space behind it does not either. -/
theorem Denotes.after {room : Nat} {bs ws : List UInt8} {v : Value} (text : Denotes room bs v)
    (h : Blank ws) : Denotes room (bs ++ ws) v :=
  Denotes.padded Blank.nil text h

/-- An object's text denotes the object of its members. -/
theorem ObjectText.denotes {room : Nat} {bs : List UInt8} {ms : List (String × Value)}
    (h : ObjectText room bs ms) : Denotes (room + 1) bs (.ofMembers ms) := by
  obtain ⟨ws, inner, ws', es, hws, hws', rfl, laid, labels, values, rfl⟩ := h
  have := Denotes.padded hws (Denotes.object laid labels values) hws'
  simpa using this

/-- **A text that denotes an object** is an object, with space around it. -/
theorem objectText_of_denotes {room : Nat} {bs : List UInt8} {v : Value} (h : Denotes room bs v)
    {fields : List (String × Value)} (hv : v = .object fields) :
    ∃ inside ms, room = inside + 1 ∧ ObjectText inside bs ms ∧ v = .ofMembers ms := by
  induction h with
  | null | true | false | number | string | array => cases hv
  | @object room inner es laid labels values =>
    exact ⟨room, _, rfl, ⟨[], inner, [], es, .nil, .nil, rfl, laid, labels, values, rfl⟩, rfl⟩
  | @padded room ws bs ws' v before text after ih =>
    obtain ⟨inside, ms, rfl, hobject, hms⟩ := ih hv
    obtain ⟨ws₁, inner, ws₂, es, h₁, h₂, rfl, laid, labels, values, rfl⟩ := hobject
    refine ⟨inside, _, rfl, ⟨ws ++ ws₁, inner, ws₂ ++ ws', es, before.append h₁, h₂.append after, ?_,
      laid, labels, values, rfl⟩, hms⟩
    simp

end ClusterClient.Json
