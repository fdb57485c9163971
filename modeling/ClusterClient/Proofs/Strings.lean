import ClusterClient.Proofs.Lexing
import ClusterClient.Proofs.Utf8
import ClusterClient.Json.Scalar

/-!
# The text of a string

What stands between the quotes of a string is kept by the lexer as bytes and escaped code units,
and is put together only when somebody asks for the text. The text is then the one that the grammar
gives, if it gives one.

* **`UnitBytes`**: what a code unit adds to the bytes, by itself or with the next one.
* **`exists_bytes`**: a character that is not escaped was written byte by byte, since no escape
  yields a byte that continues one.
* **`stringText_iff`**: the pieces and the grammar agree.
-/

namespace ClusterClient.Json

open Utf8 (Continuation spelled encodeChars)

/-! ## What the first piece adds -/

/-- Plain bytes of a string are its bytes. -/
theorem bytesOfPieces?_bytes (bs : List UInt8) (ps : List Piece) :
    bytesOfPieces? (bs.map Piece.byte ++ ps) = (bytesOfPieces? ps).map (bs ++ ·) := by
  induction bs with
  | nil => simp
  | cons b bs ih =>
    rw [List.map_cons, List.cons_append, bytesOfPieces?, ih, Option.map_map]
    rfl

/-- A code unit that is a character by itself. -/
theorem bytesOfPieces?_single {n : Nat} (h : ¬(0xD800 ≤ n ∧ n < 0xE000)) (ps : List Piece) :
    bytesOfPieces? (.codeUnit n :: ps) =
      (bytesOfPieces? ps).map (String.utf8EncodeChar (Char.ofNat n) ++ ·) := by
  match ps with
  | [] | .byte b :: ps => simp only [bytesOfPieces?, if_neg h]
  | .codeUnit low :: ps => rw [bytesOfPieces?, if_neg (by omega), if_neg (by omega)]

/-- A high surrogate and a low one. -/
theorem bytesOfPieces?_pair {high low : Nat} (is_high : 0xD800 ≤ high ∧ high < 0xDC00)
    (is_low : 0xDC00 ≤ low ∧ low < 0xE000) (ps : List Piece) :
    bytesOfPieces? (.codeUnit high :: .codeUnit low :: ps) = (bytesOfPieces? ps).map
      (String.utf8EncodeChar (Char.ofNat ((high - 0xD800) * 0x400 + (low - 0xDC00) + 0x10000)) ++
        ·) := by
  rw [bytesOfPieces?, if_pos is_high, if_pos is_low]

/-- What a code unit adds: itself, or with the next one the character of a surrogate pair. -/
inductive UnitBytes (n : Nat) (ps : List Piece) (out : List UInt8) : Prop where
  | single {rest : List UInt8} (whole : ¬(0xD800 ≤ n ∧ n < 0xE000))
      (rest_bytes : bytesOfPieces? ps = some rest)
      (bytes : out = String.utf8EncodeChar (Char.ofNat n) ++ rest)
  | pair {low : Nat} {after : List Piece} {rest : List UInt8} (pieces : ps = .codeUnit low :: after)
      (is_high : 0xD800 ≤ n ∧ n < 0xDC00) (is_low : 0xDC00 ≤ low ∧ low < 0xE000)
      (rest_bytes : bytesOfPieces? after = some rest)
      (bytes : out = String.utf8EncodeChar
        (Char.ofNat ((n - 0xD800) * 0x400 + (low - 0xDC00) + 0x10000)) ++ rest)

/-- The inversion of an escaped code unit: a character by itself, or the first half of a pair. -/
theorem unit_of_bytes {n : Nat} {ps : List Piece} {out : List UInt8}
    (h : bytesOfPieces? (.codeUnit n :: ps) = some out) : UnitBytes n ps out := by
  by_cases hn : 0xD800 ≤ n ∧ n < 0xE000
  · match ps with
    | [] =>
      -- a first half with nothing after it is no character
      rw [bytesOfPieces?, if_pos hn] at h
      · cases h
      · nofun
    | .byte b :: ps =>
      rw [bytesOfPieces?, if_pos hn] at h
      · cases h
      · nofun
    | .codeUnit low :: ps =>
      -- two halves are one character, a second half alone is none
      rw [bytesOfPieces?] at h
      split at h
      · next is_high =>
        split at h
        · next is_low =>
          obtain ⟨rest, hrest, rfl⟩ := Option.map_eq_some_iff.mp h
          exact .pair rfl is_high is_low hrest rfl
        · cases h
      · rw [if_pos (by omega)] at h
        cases h
  · rw [bytesOfPieces?_single hn] at h
    obtain ⟨rest, hrest, rfl⟩ := Option.map_eq_some_iff.mp h
    exact .single hn hrest rfl

/-- A character that is not escaped was written byte by byte, since what an escape adds never begins
with a byte that continues a character. -/
theorem exists_bytes {bs rest : List UInt8} (hbs : ∀ b ∈ bs, Continuation b) {ps : List Piece}
    (h : bytesOfPieces? ps = some (bs ++ rest)) :
    ∃ after, ps = bs.map Piece.byte ++ after ∧ bytesOfPieces? after = some rest := by
  induction bs generalizing ps with
  | nil => exact ⟨ps, rfl, h⟩
  | cons b bs ih =>
    have hb : Continuation b := hbs b List.mem_cons_self
    match ps with
    | [] => cases h
    | .byte a :: ps =>
      rw [bytesOfPieces?] at h
      obtain ⟨out, hout, heq⟩ := Option.map_eq_some_iff.mp h
      obtain ⟨rfl, rfl⟩ := List.cons.inj heq
      obtain ⟨after, rfl, hafter⟩ := ih (fun b hb => hbs b (List.mem_cons_of_mem _ hb)) hout
      exact ⟨after, rfl, hafter⟩
    | .codeUnit n :: ps =>
      -- what an escape adds begins with an ASCII byte or a lead byte
      have hnever : ∀ (c : Char) (out : List UInt8),
          b :: (bs ++ rest) ≠ String.utf8EncodeChar c ++ out := by
        intro c out heq
        have hspelled := spelled c
        generalize String.utf8EncodeChar c = spelling at heq hspelled
        unfold Continuation at hb
        cases hspelled with
        | ascii value below =>
          obtain ⟨rfl, -⟩ := List.cons.inj heq
          omega
        | longer lead least continuations =>
          obtain ⟨rfl, -⟩ := List.cons.inj heq
          omega
      cases unit_of_bytes h with
      | single _ _ bytes => exact absurd bytes (hnever _ _)
      | pair _ _ _ _ bytes => exact absurd bytes (hnever _ _)

/-! ## Pieces and the grammar -/

/-- What a short escape stands for is a character by itself. -/
theorem escapeCode?_whole {b : UInt8} {n : Nat} (h : escapeCode? b = some n) :
    ¬(0xD800 ≤ n ∧ n < 0xE000) := by
  have hall : ∀ e ∈ shortEscapes, e.2.toNat < 0x80 := by decide
  obtain ⟨e, he, -, rfl⟩ := escapeCode?_eq_some_iff.mp h
  have hcode := hall e he
  omega

/-- Plain bytes are written as they are. -/
theorem PieceText.append_bytes {bs rest : List UInt8} {ps : List Piece}
    (hbs : ∀ b ∈ bs, b ≠ 34 ∧ b ≠ 92 ∧ 32 ≤ b.toNat) (h : PieceText rest ps) :
    PieceText (bs ++ rest) (bs.map Piece.byte ++ ps) := by
  induction bs with
  | nil => exact h
  | cons b bs ih =>
    obtain ⟨quote, backslash, least⟩ := hbs b List.mem_cons_self
    exact .byte quote backslash least (ih fun b hb => hbs b (List.mem_cons_of_mem _ hb))

/-- Pieces that begin with plain bytes are written with these in front. -/
theorem PieceText.of_append_bytes (bs : List UInt8) {text : List UInt8} {ps : List Piece}
    (h : PieceText text (bs.map Piece.byte ++ ps)) :
    ∃ rest, text = bs ++ rest ∧ PieceText rest ps := by
  induction bs generalizing text with
  | nil => exact ⟨text, rfl, h⟩
  | cons b bs ih =>
    cases h with
    | byte _ _ _ htext =>
      obtain ⟨rest, rfl, hrest⟩ := ih htext
      exact ⟨rest, rfl, hrest⟩

/-- The bytes of a character that may stand for itself. -/
theorem plain_bytes {c : Char} (least : 32 ≤ c.toNat) (quote : c.toNat ≠ 34)
    (backslash : c.toNat ≠ 92) :
    ∀ b ∈ String.utf8EncodeChar c, b ≠ 34 ∧ b ≠ 92 ∧ 32 ≤ b.toNat := by
  have hvalue : ∀ b : UInt8, 32 ≤ b.toNat → b.toNat ≠ 34 → b.toNat ≠ 92 →
      b ≠ 34 ∧ b ≠ 92 ∧ 32 ≤ b.toNat := by
    intro b hleast hquote hbackslash
    exact ⟨fun h => hquote (h ▸ rfl), fun h => hbackslash (h ▸ rfl), hleast⟩
  intro b hb
  have hspelled := spelled c
  generalize String.utf8EncodeChar c = spelling at hb hspelled
  cases hspelled with
  | ascii value below =>
    obtain rfl := List.mem_singleton.mp hb
    exact hvalue b (by omega) (by omega) (by omega)
  | longer lead _ continuations =>
    rcases List.mem_cons.mp hb with rfl | hb
    · exact hvalue b (by omega) (by omega) (by omega)
    · have := continuations b hb
      unfold Continuation at this
      exact hvalue b (by omega) (by omega) (by omega)

/-- **What the grammar takes for a string has pieces** that come to its characters. -/
theorem pieces_of_stringText {bs : List UInt8} {cs : List Char} (h : StringText bs cs) :
    ∃ ps, PieceText bs ps ∧ bytesOfPieces? ps = some (encodeChars cs) := by
  -- one case for each way to write a character
  induction h with
  | nil => exact ⟨[], .nil, rfl⟩
  | plain least quote backslash _ ih =>
    obtain ⟨ps, htext, hbytes⟩ := ih
    refine ⟨_, htext.append_bytes (plain_bytes least quote backslash), ?_⟩
    rw [bytesOfPieces?_bytes, hbytes]
    rfl
  | escape code _ ih =>
    obtain ⟨ps, htext, hbytes⟩ := ih
    refine ⟨_, .escape code htext, ?_⟩
    rw [bytesOfPieces?_single (escapeCode?_whole code), hbytes]
    rfl
  | single unit whole _ ih =>
    obtain ⟨ps, htext, hbytes⟩ := ih
    refine ⟨_, .unit unit htext, ?_⟩
    rw [bytesOfPieces?_single whole, hbytes]
    rfl
  | pair first second is_high is_low _ ih =>
    obtain ⟨ps, htext, hbytes⟩ := ih
    refine ⟨_, .unit first (.unit second htext), ?_⟩
    rw [bytesOfPieces?_pair is_high is_low, hbytes]
    rfl

/-- A character that was written byte by byte may stand for itself. -/
theorem plain_of_pieces {c : Char} {b : UInt8} {bs text : List UInt8} {ps : List Piece}
    (hc : String.utf8EncodeChar c = b :: bs) (h : PieceText text (.byte b :: ps)) :
    32 ≤ c.toNat ∧ c.toNat ≠ 34 ∧ c.toNat ≠ 92 := by
  have hspelled := spelled c
  rw [hc] at hspelled
  cases h with
  | byte quote backslash least =>
    cases hspelled with
    | ascii value below =>
      have hquote : b.toNat ≠ 34 := fun h => quote (UInt8.toNat_inj.mp h)
      have hbackslash : b.toNat ≠ 92 := fun h => backslash (UInt8.toNat_inj.mp h)
      omega
    -- beyond ASCII a character is none of those that need an escape
    | longer => omega

/-- Every piece comes to a byte at the least. -/
theorem bytesOfPieces?_cons_ne_nil (p : Piece) (ps : List Piece) :
    bytesOfPieces? (p :: ps) ≠ some [] := by
  intro h
  cases p with
  | byte b => simp [bytesOfPieces?] at h
  | codeUnit n =>
    cases unit_of_bytes h with
    | single _ _ bytes | pair _ _ _ _ bytes => simp at bytes

/-- The induction is on the characters, each of which takes one or more pieces. -/
theorem stringText_of_pieces {ps : List Piece} {bs : List UInt8} {cs : List Char}
    (htext : PieceText bs ps) (hbytes : bytesOfPieces? ps = some (encodeChars cs)) :
    StringText bs cs := by
  induction cs generalizing bs ps with
  | nil =>
    cases htext with
    | nil => exact .nil
    | byte | escape | unit => exact absurd hbytes (bytesOfPieces?_cons_ne_nil _ _)
  | cons c cs ih =>
    have hcons : encodeChars (c :: cs) = String.utf8EncodeChar c ++ encodeChars cs := rfl
    rw [hcons] at hbytes
    cases ps with
    | nil => simp [bytesOfPieces?] at hbytes
    | cons p ps =>
      cases p with
      | byte b =>
        -- the bytes of the character that follow were written one by one as well
        obtain ⟨a, as, hc, has⟩ := (spelled c).continuations
        rw [hc, bytesOfPieces?] at hbytes
        obtain ⟨out, hout, heq⟩ := Option.map_eq_some_iff.mp hbytes
        obtain ⟨rfl, rfl⟩ := List.cons.inj heq
        obtain ⟨after, rfl, hafter⟩ := exists_bytes has hout
        obtain ⟨least, quote, backslash⟩ := plain_of_pieces hc htext
        obtain ⟨rest, rfl, hrest⟩ := PieceText.of_append_bytes (b :: as) htext
        rw [← hc]
        exact .plain least quote backslash (ih hrest hafter)
      | codeUnit n =>
        cases unit_of_bytes hbytes with
        | single whole hrest bytes =>
          -- by itself: the short escape, or four hexadecimal digits
          obtain ⟨rfl, rfl⟩ := Utf8.encodeChar_append_inj bytes
          cases htext with
          | escape code htext => exact .escape code (ih htext hrest)
          | unit unit htext => exact .single unit whole (ih htext hrest)
        | pair pieces is_high is_low hrest bytes =>
          obtain ⟨hc, hcs⟩ := Utf8.encodeChar_append_inj bytes
          subst pieces hcs
          rw [hc]
          -- neither half of a pair has a short escape
          cases htext with
          | escape code => exact absurd is_high (by have := escapeCode?_whole code; omega)
          | unit first htext =>
            cases htext with
            | escape code => exact absurd is_low (by have := escapeCode?_whole code; omega)
            | unit second htext => exact .pair first second is_high is_low (ih htext hrest)

/-- **The text of a string** is what its pieces come to. -/
theorem stringText_iff {bs : List UInt8} {s : String} :
    StringText bs s.toList ↔ ∃ ps, PieceText bs ps ∧ textOfPieces? ps = some s := by
  have htext : ∀ ps,
      textOfPieces? ps = some s ↔ bytesOfPieces? ps = some (encodeChars s.toList) := by
    intro ps
    rw [textOfPieces?, Option.bind_eq_some_iff]
    constructor
    · rintro ⟨bytes, hbytes, hdecode⟩
      rw [hbytes, Utf8.decode?_eq_some_iff.mp hdecode]
      rfl
    · exact fun h => ⟨_, h, Utf8.decode?_encode s⟩
  simp only [htext]
  exact ⟨pieces_of_stringText, fun ⟨ps, hps, hbytes⟩ => stringText_of_pieces hps hbytes⟩

end ClusterClient.Json
