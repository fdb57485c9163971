import ClusterClient.Text.Hex

/-!
# Universally unique identifiers

128 bits, written as 32 hexadecimal digits in five groups.

* `Uuid.text`: the lower-case hyphenated form;
* `Uuid.read?`: the plain, the hyphenated, the braced and the URN form, letters in either case.
-/

namespace ClusterClient

/-- An identifier of 128 bits. -/
structure Uuid where
  bits : BitVec 128
  deriving DecidableEq, Repr

namespace Uuid

/-- The identifier without a set bit. -/
def nil : Uuid := ⟨0⟩

/-- Hyphens between the groups of 8, 4, 4, 4 and 12 digits. -/
def hyphenate (digits : List Char) : List Char :=
  digits.take 8 ++ '-' :: (digits.drop 8).take 4 ++ '-' :: (digits.drop 12).take 4 ++
    '-' :: (digits.drop 16).take 4 ++ '-' :: digits.drop 20

/-- The lower-case hyphenated form. -/
def text (u : Uuid) : List Char :=
  hyphenate (hexText u.bits.toNat 32)

/-- The digits of a hyphenated form, `none` where a hyphen is missing. -/
def unhyphenate? (cs : List Char) : Option (List Char) :=
  let digits := cs.take 8 ++ (cs.drop 9).take 4 ++ (cs.drop 14).take 4 ++
    (cs.drop 19).take 4 ++ cs.drop 24
  if cs = hyphenate digits then some digits else none

def ofDigits? (digits : List Char) : Option Uuid :=
  if digits.length = 32 then (hexNumber? 0 digits).map fun n => ⟨.ofNat 128 n⟩ else none

def ofHyphenated? (cs : List Char) : Option Uuid :=
  (unhyphenate? cs).bind ofDigits?

/-- What stands before a hyphenated form in a URN, in either case. -/
def urnStart : List Char := "urn:uuid:".toList

/-- Reads an identifier in any of its four forms, which their lengths tell apart. -/
def read? (cs : List Char) : Option Uuid :=
  if cs.length = 32 then ofDigits? cs
  else if cs.length = 36 then ofHyphenated? cs
  else if cs.length = 38 then
    if cs.head? = some '\x7b' ∧ cs.getLast? = some '\x7d' then ofHyphenated? ((cs.drop 1).take 36)
    else none
  else if cs.length = 45 ∧ (cs.take 9).map Char.toLower = urnStart then ofHyphenated? (cs.drop 9)
  else none

theorem length_hyphenate {digits : List Char} (h : digits.length = 32) :
    (hyphenate digits).length = 36 := by
  simp only [hyphenate, List.length_append, List.length_cons, List.length_take, List.length_drop, h]
  omega

/-- The groups and the hyphens between them. -/
theorem hyphenate_groups {a b c d : List Char} (e : List Char) (ha : a.length = 8)
    (hb : b.length = 4) (hc : c.length = 4) (hd : d.length = 4) :
    hyphenate (a ++ (b ++ (c ++ (d ++ e)))) =
      a ++ '-' :: (b ++ '-' :: (c ++ '-' :: (d ++ '-' :: e))) := by
  simp (disch := omega) [hyphenate, List.drop_append, List.drop_of_length_le, ha, hb, hc]

/-- Taking the hyphens out undoes putting them in. -/
theorem unhyphenate?_hyphenate {digits : List Char} (h : digits.length = 32) :
    unhyphenate? (hyphenate digits) = some digits := by
  obtain ⟨a, as, ha, rfl⟩ : ∃ a as, a.length = 8 ∧ digits = a ++ as :=
    ⟨_, _, by simp [h], (List.take_append_drop 8 digits).symm⟩
  obtain ⟨b, bs, hb, rfl⟩ : ∃ b bs, b.length = 4 ∧ as = b ++ bs :=
    ⟨_, _, by simp at h ⊢; omega, (List.take_append_drop 4 as).symm⟩
  obtain ⟨c, cs, hc, rfl⟩ : ∃ c cs, c.length = 4 ∧ bs = c ++ cs :=
    ⟨_, _, by simp at h ⊢; omega, (List.take_append_drop 4 bs).symm⟩
  obtain ⟨d, e, hd, rfl⟩ : ∃ d e, d.length = 4 ∧ cs = d ++ e :=
    ⟨_, _, by simp at h ⊢; omega, (List.take_append_drop 4 cs).symm⟩
  have hback : ∀ text, text = a ++ '-' :: (b ++ '-' :: (c ++ '-' :: (d ++ '-' :: e))) →
      text.take 8 ++ (text.drop 9).take 4 ++ (text.drop 14).take 4 ++ (text.drop 19).take 4 ++
        text.drop 24 = a ++ (b ++ (c ++ (d ++ e))) := by
    rintro _ rfl
    simp (disch := omega) [List.drop_append, List.drop_of_length_le, ha, hb, hc, hd]
  unfold unhyphenate?
  dsimp only
  rw [hback _ (hyphenate_groups e ha hb hc hd), if_pos rfl]

theorem length_text (u : Uuid) : u.text.length = 36 :=
  length_hyphenate (length_hexText _ _)

/-- **What is written for an identifier is read as this identifier.** -/
theorem read?_text (u : Uuid) : read? u.text = some u := by
  have hdigits : (hexText u.bits.toNat 32).length = 32 := length_hexText _ _
  have hwidth : Nat.pow 2 128 = Nat.pow 16 32 := by decide
  have hbits : u.bits.toNat % Nat.pow 16 32 = u.bits.toNat := by
    rw [← hwidth]
    exact Nat.mod_eq_of_lt u.bits.isLt
  rw [read?, if_neg (by rw [length_text]; decide), if_pos (length_text u), ofHyphenated?, text,
    unhyphenate?_hyphenate hdigits, Option.bind_some, ofDigits?, if_pos hdigits,
    hexNumber?_hexText, Option.map_some, hbits]
  simp

theorem text_injective {u v : Uuid} (h : u.text = v.text) : u = v := by
  have hv := read?_text v
  rw [← h, read?_text] at hv
  exact Option.some.inj hv

end Uuid

end ClusterClient
