import ClusterClient.Proofs.Utf8

/-!
# Bytes read as text

Any bytes are read as text: what is no UTF-8 is replaced, and everything else is kept. Where no
character stands, one replacement takes the place of as many bytes as begin some character, or of
one byte if it begins none.

* **`Begins`**, **`Flaw`**: bytes that begin a character, and what one replacement stands for.
* **`Repairs`**: the text of any bytes, without an automaton.
* **`Pending`**: the state of the automaton is what has been read of a character.
* **`repairs_iff`**: the automaton reads the text of the bytes, and there is one only.
-/

namespace ClusterClient.Utf8

/-- A character begins with these bytes, or is made of them. -/
def Begins (p : List UInt8) : Prop :=
  ∃ c s, String.utf8EncodeChar c = p ++ s

/-- What one replacement stands for, in front of other bytes. -/
inductive Flaw : List UInt8 → List UInt8 → Prop where
  /-- A byte that begins no character. -/
  | stray {b : UInt8} {bs : List UInt8} (stray : ¬ Begins [b]) : Flaw [b] bs
  /-- The beginning of a character, and as much of it as there is. -/
  | cut {p s bs : List UInt8} {c : Char} (begins : String.utf8EncodeChar c = p ++ s)
      (some_bytes : p ≠ []) (not_all : s ≠ []) (longest : ∀ b ∈ bs.head?, ¬ Begins (p ++ [b])) :
      Flaw p bs

/-- The text of any bytes. -/
inductive Repairs : List UInt8 → List Char → Prop where
  | nil : Repairs [] []
  | char {c : Char} {bs : List UInt8} {cs : List Char} (rest : Repairs bs cs) :
      Repairs (String.utf8EncodeChar c ++ bs) (c :: cs)
  | flaw {p bs : List UInt8} {cs : List Char} (flaw : Flaw p bs) (rest : Repairs bs cs) :
      Repairs (p ++ bs) ('\uFFFD' :: cs)

/-! ## There is one text only -/

/-- No character is encoded as nothing. -/
theorem encodeChar_ne_nil (c : Char) : String.utf8EncodeChar c ≠ [] := by
  intro h
  have hscan := scanFrom_encodeChar c []
  rw [h] at hscan
  cases hscan

/-- What a character begins with begins with fewer bytes of it too. -/
theorem Begins.of_append {p s : List UInt8} (h : Begins (p ++ s)) : Begins p := by
  obtain ⟨c, rest, hc⟩ := h
  exact ⟨c, s ++ rest, by rw [hc, List.append_assoc]⟩

/-- A flaw stands for one byte at the least. -/
theorem Flaw.ne_nil {p bs : List UInt8} (h : Flaw p bs) : p ≠ [] := by
  cases h with
  | stray => exact List.cons_ne_nil _ _
  | cut _ some_bytes => exact some_bytes

/-- No character has bytes past a flaw. -/
theorem Flaw.not_begins {p : List UInt8} {b : UInt8} {bs : List UInt8} (h : Flaw p (b :: bs)) :
    ¬ Begins (p ++ [b]) := by
  cases h with
  | stray stray => exact fun hb => stray hb.of_append
  | cut _ _ _ longest => exact longest b rfl

/-- Where a flaw is, there is no character. -/
theorem Flaw.not_char {p bs rest : List UInt8} {c : Char} (h : Flaw p bs) :
    String.utf8EncodeChar c ++ rest ≠ p ++ bs := by
  intro heq
  rcases List.append_eq_append_iff.mp heq with ⟨more, rfl, rfl⟩ | ⟨more, hc, rfl⟩
  · -- the whole character would be the beginning of another one
    generalize hp : String.utf8EncodeChar c ++ more = p at h
    cases h with
    | stray stray =>
      obtain ⟨b, s, hbytes⟩ := List.exists_cons_of_ne_nil (encodeChar_ne_nil c)
      rw [hbytes] at hp
      obtain ⟨rfl, -⟩ := List.cons.inj hp
      exact stray ⟨c, s, hbytes⟩
    | @cut _ s _ d begins _ not_all =>
      rw [← hp, List.append_assoc, ← List.append_nil (String.utf8EncodeChar d)] at begins
      have hnil := (encodeChar_append_inj begins).2
      exact not_all (List.append_eq_nil_iff.mp hnil.symm).2
  · -- the flaw would be a part of a character, or the whole of it
    cases more with
    | nil =>
      rw [List.append_nil] at hc
      cases h with
      | stray stray => exact stray ⟨c, [], by rw [hc, List.append_nil]⟩
      | @cut _ s _ d begins _ not_all =>
        rw [← hc, ← List.append_nil (String.utf8EncodeChar d)] at begins
        exact not_all (encodeChar_append_inj begins).2.symm
    | cons b more => exact h.not_begins ⟨c, more, by simpa using hc⟩

/-- Of two flaws at one place neither is longer. -/
theorem Flaw.le {p q bs more : List UInt8} (h : Flaw p (more ++ bs)) (h' : Flaw q bs)
    (heq : q = p ++ more) : more = [] := by
  cases more with
  | nil => rfl
  | cons b more =>
    have hnot := h.not_begins
    cases h' with
    | stray =>
      -- a stray byte is alone, so nothing is left for the rest of it
      have hlength := congrArg List.length heq
      have hpos := List.length_pos_iff.mpr h.ne_nil
      simp at hlength
      omega
    | @cut _ s _ c begins =>
      -- the longer one would still begin a character
      refine absurd ⟨c, more ++ s, ?_⟩ hnot
      rw [begins, heq]
      simp

/-- Of the same bytes, flaws take away the same. -/
theorem Flaw.eq {p q bs bs' : List UInt8} (h : Flaw p bs) (h' : Flaw q bs')
    (heq : p ++ bs = q ++ bs') : p = q ∧ bs = bs' := by
  rcases List.append_eq_append_iff.mp heq with ⟨more, rfl, rfl⟩ | ⟨more, rfl, rfl⟩
  · obtain rfl := h.le h' rfl
    simp
  · obtain rfl := h'.le h rfl
    simp

/-- **Bytes have one text at most**, by induction on one of them. -/
theorem Repairs.unique {bs : List UInt8} {cs cs' : List Char} (h : Repairs bs cs)
    (h' : Repairs bs cs') : cs = cs' := by
  induction h generalizing cs' with
  | nil =>
    -- only no bytes at all are read as no characters
    generalize hnil : ([] : List UInt8) = bs at h'
    cases h' with
    | nil => rfl
    | @char c => exact absurd (List.append_eq_nil_iff.mp hnil.symm).1 (encodeChar_ne_nil c)
    | flaw flaw => exact absurd (List.append_eq_nil_iff.mp hnil.symm).1 flaw.ne_nil
  | @char c bs cs _ ih =>
    generalize hbytes : String.utf8EncodeChar c ++ bs = bytes at h'
    cases h' with
    | nil => exact absurd (List.append_eq_nil_iff.mp hbytes).1 (encodeChar_ne_nil c)
    | char rest =>
      obtain ⟨rfl, rfl⟩ := encodeChar_append_inj hbytes
      rw [ih rest]
    | flaw flaw => exact absurd hbytes flaw.not_char
  | @flaw p bs cs flaw _ ih =>
    -- the same flaw is taken away on both sides
    generalize hbytes : p ++ bs = bytes at h'
    cases h' with
    | nil => exact absurd (List.append_eq_nil_iff.mp hbytes).1 flaw.ne_nil
    | char rest => exact absurd hbytes.symm flaw.not_char
    | flaw flaw' rest =>
      obtain ⟨-, rfl⟩ := flaw.eq flaw' hbytes
      rw [ih rest]

/-! ## The automaton reads it -/

/-- These bytes have been read of a character, and there is a byte that can follow them. -/
structure Pending (p : List UInt8) (u : Unfinished) : Prop where
  some_bytes : p ≠ []
  read : ∀ bs, scanFrom none (p ++ bs) = scanFrom (some u) bs
  missing : u.missing ≠ 0
  range : u.least ≤ u.greatest
  byte : u.greatest < 256

/-- A lead byte is read, and another byte can follow it. -/
theorem pending_of_lead {b : UInt8} {u : Unfinished} (h : start b = .lead u) : Pending [b] u := by
  have hrange : u.missing ≠ 0 ∧ u.least ≤ u.greatest ∧ u.greatest < 256 := by
    unfold start at h
    dsimp only at h
    repeat' split at h
    all_goals first
      | contradiction
      | (obtain rfl := Start.lead.inj h; simp)
  exact ⟨List.cons_ne_nil _ _, scanFrom_of_lead h, hrange.1, hrange.2.1, hrange.2.2⟩

/-- An unfinished character can be finished. -/
theorem exists_finish (m : Nat) {bits least greatest : Nat} (hrange : least ≤ greatest)
    (hbyte : greatest < 256) :
    ∃ s c, s ≠ [] ∧ scanFrom (some ⟨bits, m + 1, least, greatest⟩) s = [some c] := by
  induction m generalizing bits least greatest with
  | zero =>
    -- the least byte in range will do
    have hb : (UInt8.ofNat least).toNat = least := toNat_ofNat_of_lt (by omega)
    exact ⟨[UInt8.ofNat least], _, List.cons_ne_nil _ _,
      scanFrom_last (by omega) (by omega) []⟩
  | succ m ih =>
    have hb : (UInt8.ofNat least).toNat = least := toNat_ofNat_of_lt (by omega)
    obtain ⟨s, c, -, hs⟩ := ih (by decide : 0x80 ≤ 0xBF) (by decide)
    exact ⟨UInt8.ofNat least :: s, c, List.cons_ne_nil _ _,
      (scanFrom_inner m (by omega) (by omega) s).trans hs⟩

theorem eq_encodeChar_of_scan {bs : List UInt8} {c : Char} (h : scanFrom none bs = [some c]) :
    bs = String.utf8EncodeChar c := by
  have hbytes := eq_encodeChars_of_scan (show scan bs = [c].map some from h)
  rwa [encodeChars, List.flatMap_singleton] at hbytes

/-- A byte that does not continue a character is read afresh after a flaw. -/
theorem scanFrom_outside {u : Unfinished} {b : UInt8}
    (h : ¬(u.least ≤ b.toNat ∧ b.toNat ≤ u.greatest)) (bs : List UInt8) :
    scanFrom (some u) (b :: bs) = none :: scanFrom none (b :: bs) := by
  simp only [scanFrom, step, if_neg h, List.cons_append]

/-- What has been read of a character is a flaw where the next byte does not continue it. -/
theorem Pending.flaw {p bs : List UInt8} {u : Unfinished} (h : Pending p u)
    (hnext : ∀ b ∈ bs.head?, ¬(u.least ≤ b.toNat ∧ b.toNat ≤ u.greatest)) : Flaw p bs := by
  obtain ⟨m, hm⟩ := Nat.exists_eq_succ_of_ne_zero h.missing
  obtain ⟨s, c, hs, hscan⟩ : ∃ s c, s ≠ [] ∧ scanFrom (some u) s = [some c] := by
    obtain ⟨bits, missing, least, greatest⟩ := u
    obtain rfl : missing = m + 1 := hm
    exact exists_finish m h.range h.byte
  rw [← h.read] at hscan
  refine .cut (eq_encodeChar_of_scan hscan).symm h.some_bytes hs fun b hb => ?_
  -- a character that begins so would be read without a flaw
  rintro ⟨d, rest, hd⟩
  have hread := scanFrom_encodeChar d []
  rw [List.append_nil, hd, List.append_assoc, List.singleton_append, h.read,
    scanFrom_outside (hnext b hb)] at hread
  cases hread

/-- The replacement takes the place of a flaw. -/
def mend (x : Option Char) : Char :=
  x.getD '\uFFFD'

section

variable {b : UInt8} {bs : List UInt8} (hrest : Repairs bs ((scanFrom none bs).map mend))
  (hinside : ∀ p u, Pending p u → Repairs (p ++ bs) ((scanFrom (some u) bs).map mend))
include hrest hinside

/-- Between characters: the byte is a character, or begins one, or is a flaw. -/
theorem repairs_between : Repairs (b :: bs) ((scanFrom none (b :: bs)).map mend) := by
  cases hstart : start b with
  | ascii c =>
    have hread : ∀ rest, scanFrom none (b :: rest) = some c :: scanFrom none rest := by
      simp [scanFrom, step, begin, hstart]
    have hchar : [b] = String.utf8EncodeChar c := eq_encodeChar_of_scan (hread [])
    rw [hread, ← List.singleton_append, hchar]
    exact .char hrest
  | flaw =>
    have hread : ∀ rest, scanFrom none (b :: rest) = none :: scanFrom none rest := by
      simp [scanFrom, step, begin, hstart]
    have hstray : ¬ Begins [b] := by
      rintro ⟨c, s, hc⟩
      have hscan := scanFrom_encodeChar c []
      rw [List.append_nil, hc, List.singleton_append, hread] at hscan
      cases hscan
    rw [hread]
    exact .flaw (.stray hstray) hrest
  | lead u =>
    rw [scanFrom_of_lead hstart]
    exact hinside [b] u (pending_of_lead hstart)

/-- Inside a character: the byte continues it, as the last one or not, or what there is of it is a
flaw. -/
theorem repairs_inside {p : List UInt8} {u : Unfinished} (h : Pending p u) :
    Repairs (p ++ b :: bs) ((scanFrom (some u) (b :: bs)).map mend) := by
  by_cases hbyte : u.least ≤ b.toNat ∧ b.toNat ≤ u.greatest
  · obtain ⟨bits, missing, least, greatest⟩ := u
    -- the last byte that is missing, or one of several
    obtain _ | _ | m := missing
    · exact absurd rfl h.missing
    · obtain ⟨c, hread⟩ : ∃ c, ∀ rest,
          scanFrom (some ⟨bits, 1, least, greatest⟩) (b :: rest) = some c :: scanFrom none rest :=
        ⟨_, scanFrom_last hbyte.1 hbyte.2⟩
      have hchar := eq_encodeChar_of_scan ((h.read [b]).trans (hread []))
      rw [hread, List.append_cons, hchar]
      exact .char hrest
    · have hread := @scanFrom_inner bits least greatest b m hbyte.1 hbyte.2
      have hpending : Pending (p ++ [b]) ⟨bits * 64 + (b.toNat - 0x80), m + 1, 0x80, 0xBF⟩ :=
        ⟨by simp, fun rest => by rw [← List.append_cons, h.read, hread], Nat.succ_ne_zero m,
          by simp, by simp⟩
      rw [hread, List.append_cons]
      exact hinside _ _ hpending
  · rw [scanFrom_outside hbyte]
    have hflaw : Flaw p (b :: bs) := h.flaw fun b' hb' => by cases hb'; exact hbyte
    exact .flaw hflaw (repairs_between hrest hinside)

end

/-- **The automaton repairs**, between characters and inside one, by induction on what is left. -/
theorem repairs_scan (bs : List UInt8) :
    Repairs bs ((scanFrom none bs).map mend) ∧
      ∀ p u, Pending p u → Repairs (p ++ bs) ((scanFrom (some u) bs).map mend) := by
  induction bs with
  | nil => exact ⟨.nil, fun p u h => .flaw (h.flaw (by simp)) .nil⟩
  | cons b bs ih =>
    obtain ⟨hrest, hinside⟩ := ih
    exact ⟨repairs_between hrest hinside, fun _ _ h => repairs_inside hrest hinside h⟩

/-- **The text of any bytes** is the one that is read. -/
theorem repairs_iff {bytes : List UInt8} {cs : List Char} :
    Repairs bytes cs ↔ cs = (decodeLossy bytes).toList := by
  have hread : Repairs bytes (decodeLossy bytes).toList := by
    rw [decodeLossy, String.toList_ofList]
    exact (repairs_scan bytes).1
  exact ⟨fun h => h.unique hread, fun h => h ▸ hread⟩

end ClusterClient.Utf8
