import ClusterClient.Proofs.Digits
import ClusterClient.Proofs.Utf8

/-!
# Texts are UTF-8

A text of the grammar is UTF-8 all through: outside its strings there is nothing but ASCII, and
inside them characters and escapes.

* **`Utf8.Valid`**: bytes that are UTF-8.
* **`Denotes.valid`**: a body that denotes a value is so, by induction on how it does.
-/

namespace ClusterClient

namespace Utf8

/-- The bytes are UTF-8. -/
def Valid (bs : List UInt8) : Prop :=
  ∃ s, bs = encode s

theorem valid_encodeChars (cs : List Char) : Valid (encodeChars cs) :=
  ⟨String.ofList cs, by rw [encode, String.toList_ofList]⟩

/-- UTF-8 after UTF-8 is UTF-8. -/
theorem Valid.append {bs bs' : List UInt8} (h : Valid bs) (h' : Valid bs') : Valid (bs ++ bs') := by
  obtain ⟨s, rfl⟩ := h
  obtain ⟨s', rfl⟩ := h'
  rw [encode, encode, ← encodeChars_append]
  exact valid_encodeChars _

/-- ASCII is UTF-8. -/
theorem valid_ascii {bs : List UInt8} (h : ∀ b ∈ bs, b.toNat < 0x80) : Valid bs := by
  induction bs with
  | nil => exact valid_encodeChars []
  | cons b bs ih =>
    obtain ⟨hb, hbs⟩ := List.forall_mem_cons.mp h
    have hfirst : Valid [b] := by
      rw [← encodeChar_one hb]
      simpa [encodeChars] using valid_encodeChars [Char.ofNat b.toNat]
    exact hfirst.append (ih hbs)

/-- So is an ASCII byte in front of UTF-8. -/
theorem Valid.cons {b : UInt8} {bs : List UInt8} (hb : b.toNat < 0x80) (h : Valid bs) :
    Valid (b :: bs) :=
  (valid_ascii (List.forall_mem_singleton.mpr hb)).append h

/-- Parts with an ASCII separator in front of each are UTF-8 if all of them are. -/
theorem valid_flatMap {parts : List (List UInt8)} {b : UInt8} (hb : b.toNat < 0x80)
    (h : ∀ p ∈ parts, Valid p) : Valid (parts.flatMap (b :: ·)) := by
  induction parts with
  | nil => exact valid_encodeChars []
  | cons p parts ih =>
    obtain ⟨hp, hparts⟩ := List.forall_mem_cons.mp h
    exact (hp.cons hb).append (ih hparts)

end Utf8

namespace Json

open Utf8

theorem Blank.valid {ws : List UInt8} (h : Blank ws) : Valid ws := by
  refine valid_ascii fun b hb => ?_
  rcases isSpace_iff.mp (h b hb) with rfl | rfl | rfl | rfl <;> decide

theorem valid_digitBytes {ds : List Nat} (h : AllDigits ds) : Valid (digitBytes ds) := by
  refine valid_ascii fun b hb => ?_
  obtain ⟨d, hd, rfl⟩ := List.mem_map.mp hb
  have hlt := h d hd
  rw [Nat.toUInt8, UInt8.toNat_ofNat']
  omega

/-- Numerals are ASCII, part by part. -/
theorem valid_numeral {bs : List UInt8} {n : Numeral} (h : NumeralText bs n) : Valid bs := by
  cases h with
  | parts digits _ fraction_text exponent_text =>
    refine (Valid.append (Valid.append (Valid.append ?_ ?_) ?_) ?_)
    · split
      · exact valid_ascii (by simp)
      · exact valid_ascii (by simp)
    · exact valid_digitBytes digits.2
    · cases fraction_text with
      | none => exact valid_ascii (by simp)
      | some digits => exact (valid_digitBytes digits.2).cons (by decide)
    · cases exponent_text with
      | none => exact valid_ascii (by simp)
      | @some mark sign negative ds letter sign_text digits =>
        have hsign : Valid sign := by cases sign_text <;> exact valid_ascii (by simp)
        refine (hsign.append (valid_digitBytes digits.2)).cons ?_
        rcases letter with rfl | rfl <;> decide

/-- Hexadecimal digits are ASCII. -/
theorem hexDigit?_ascii {b : UInt8} {n : Nat} (h : hexDigit? b = some n) : b.toNat < 0x80 := by
  have hall : ∀ d : Fin 16, d.val.digitChar.toNat < 0x80 ∧ d.val.digitChar.toUpper.toNat < 0x80 := by
    decide
  obtain ⟨hn, hb⟩ := hexDigit?_eq_some_iff.mp h
  have hdigit : n.digitChar.toNat < 0x80 ∧ n.digitChar.toUpper.toNat < 0x80 := hall ⟨n, hn⟩
  omega

theorem valid_hex {v n : Nat} {hs : List UInt8} (h : hexFold? v hs = some n) : Valid hs := by
  induction hs generalizing v with
  | nil => exact valid_encodeChars []
  | cons b hs ih =>
    unfold hexFold? at h
    split at h
    · next d hd => exact (ih h).cons (hexDigit?_ascii hd)
    · cases h

/-- The letters of short escapes are ASCII. -/
theorem escapeCode?_ascii {b : UInt8} {n : Nat} (h : escapeCode? b = some n) : b.toNat < 0x80 := by
  have hall : ∀ e ∈ shortEscapes, e.1.toNat < 0x80 := by decide
  obtain ⟨e, he, hb, -⟩ := escapeCode?_eq_some_iff.mp h
  exact hb ▸ hall e he

/-- What stands between quotes is UTF-8, by induction on the characters: each is plain or escaped.
-/
theorem valid_string {bs : List UInt8} {cs : List Char} (h : StringText bs cs) : Valid bs := by
  induction h with
  | nil => exact valid_encodeChars []
  | @plain c bs cs _ _ _ _ ih =>
    have hchar : Valid (String.utf8EncodeChar c) := by
      simpa [encodeChars] using valid_encodeChars [c]
    exact hchar.append ih
  | escape code _ ih => exact (ih.cons (escapeCode?_ascii code)).cons (by decide)
  | single unit _ _ ih => exact (((valid_hex unit.2).append ih).cons (by decide)).cons (by decide)
  | pair first second _ _ _ ih =>
    have hsecond := (((valid_hex second.2).append ih).cons (b := 117) (by decide)).cons
      (b := 92) (by decide)
    exact (((valid_hex first.2).append hsecond).cons (by decide)).cons (by decide)

theorem valid_quoted {bs : List UInt8} {s : String} (h : Quoted bs s) : Valid bs := by
  obtain ⟨inner, rfl, htext⟩ := h
  exact ((valid_string htext).append (valid_ascii (by simp))).cons (by decide)

/-- Parts with commas between them are UTF-8 if all of them are. -/
theorem valid_laid {inner : List UInt8} {parts : List (List UInt8)} (laid : Laid inner parts)
    (h : ∀ p ∈ parts, Valid p) : Valid inner := by
  cases laid with
  | blank hblank => exact hblank.valid
  | commas p ps =>
    obtain ⟨hp, hps⟩ := List.forall_mem_cons.mp h
    exact hp.append (valid_flatMap (by decide) hps)

/-- A member is UTF-8 if its value is. -/
theorem Entry.Labelled.valid {e : Entry} (h : e.Labelled) (hbody : Valid e.body) :
    Valid e.text := by
  obtain ⟨ws, quoted, ws', hws, hws', hquoted, hlabel⟩ := h
  rw [Entry.text, hlabel]
  exact ((hws.valid.append (valid_quoted hquoted)).append hws'.valid).append
    (hbody.cons (by decide))

/-- **What denotes a value is UTF-8**, by induction on how it does. -/
theorem Denotes.valid {room : Nat} {bs : List UInt8} {v : Value} (h : Denotes room bs v) :
    Valid bs := by
  induction h with
  | null | true | false => exact valid_ascii (by simp)
  | number text => exact valid_numeral text
  | string text => exact valid_quoted text
  | array laid _ ih =>
    have hinner := valid_laid laid (List.forall_mem_map.mpr ih)
    exact (hinner.append (valid_ascii (by simp))).cons (by decide)
  | object laid labels _ ih =>
    have hinner := valid_laid laid
      (List.forall_mem_map.mpr fun e he => (labels e he).valid (ih e he))
    exact (hinner.append (valid_ascii (by simp))).cons (by decide)
  | padded before _ after ih => exact (before.valid.append ih).append after.valid

end Json

end ClusterClient
