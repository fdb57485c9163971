import ClusterClient.Proofs.Members
import ClusterClient.Proofs.NumberText
import ClusterClient.Proofs.Parsing

/-!
# Reading what was written

The compact text of a value is the text of one tree, with nothing after it. What a decoder makes of
the text is what it makes of that tree.

## The architecture

* **`Spells`**: the trees of a value: its strings in some pieces, its numbers as some numerals that
  are written for them, its members in their order.
* **`exists_spelling`**, **`exists_document`**: the text of a value is that of such a tree, by
  induction on the value.
* **`ofValue_spelled`**: the decoder of any value makes the value of the tree, if its numbers are
  integers that 64 bits hold and there is room for its arrays and objects.
* **`ofValue_too_deep`**: without the room it makes nothing, whatever the value holds.
-/

namespace ClusterClient.Json

open Lexeme Decoder

/-! ## Strings -/

/-- A character is written as itself or as an escape for itself. -/
theorem stringText_writtenChar (c : Char) {bs : List UInt8} {cs : List Char}
    (rest : StringText bs cs) : StringText (Utf8.encodeChars (writtenChar c) ++ bs) (c :: cs) := by
  have hcontrol : ∀ n : Fin 32, Utf8.encodeChars ('\\' :: 'u' :: hexText n.val 4) =
      92 :: 117 :: Utf8.encodeChars (hexText n.val 4) ∧
        hexFold? 0 (Utf8.encodeChars (hexText n.val 4)) = some n.val ∧
        (Utf8.encodeChars (hexText n.val 4)).length = 4 := by decide
  unfold writtenChar
  -- the short escapes
  iterate 7
    split
    · next h =>
      subst h
      exact .escape rfl rest
  next hquote hbackslash _ _ _ _ _ =>
  split
  · next hlow =>
    obtain ⟨hbytes, hvalue, hlength⟩ := hcontrol ⟨c.toNat, hlow⟩
    dsimp only at hbytes hvalue hlength
    have htext := StringText.single ⟨hlength, hvalue⟩ (by omega) rest
    rw [Char.ofNat_toNat] at htext
    rw [hbytes]
    exact htext
  · next hhigh =>
    have htext := StringText.plain (by omega) (fun h => hquote (Char.toNat_inj.mp h))
      (fun h => hbackslash (Char.toNat_inj.mp h)) rest
    show StringText (String.utf8EncodeChar c ++ [] ++ bs) (c :: cs)
    rwa [List.append_nil]

/-- **A string is written as a text of the grammar.** -/
theorem stringText_written (cs : List Char) :
    StringText (Utf8.encodeChars (cs.flatMap writtenChar)) cs := by
  induction cs with
  | nil => exact .nil
  | cons c cs ih =>
    rw [List.flatMap_cons, Utf8.encodeChars_append]
    exact stringText_writtenChar c ih

/-- A string is written as one token, whose pieces come to it. -/
theorem exists_pieces (s : String) : ∃ ps, textOfPieces? ps = some s ∧
    TokenText (.scalar (.string ps)) (Utf8.encodeChars (writtenString s)) := by
  obtain ⟨ps, hps, htext⟩ := stringText_iff.mp (stringText_written s.toList)
  refine ⟨ps, htext, ?_⟩
  show TokenText _ (34 :: Utf8.encodeChars (s.toList.flatMap writtenChar ++ ['"']))
  rw [Utf8.encodeChars_append]
  exact .string hps

/-! ## Numbers -/

/-- A number is written as one numeral. -/
theorem exists_numeral (x : Number) : ∃ n, NumeralText (Utf8.encodeChars x.written) n := by
  cases x with
  | integer i => exact ⟨_, numeralText_integer i⟩
  | real x =>
    obtain ⟨n, htext, -⟩ := realText_text x
    exact ⟨n, htext⟩

/-- A text writes one numeral at most. -/
theorem numeral_unique {bs : List UInt8} {n n' : Numeral} (h : NumeralText bs n)
    (h' : NumeralText bs n') : n = n' := by
  have htokens := tokens_append (.number h) (fun _ _ => Ends.nil)
  rw [tokens_append (.number h') (fun _ _ => Ends.nil)] at htokens
  injection htokens with hhead
  injection hhead with hscalar
  injection hscalar with hnumeral
  exact hnumeral.symm

/-! ## The trees of a value -/

mutual

/-- A tree that is written for a value. -/
inductive Spells : Tree → Value → Prop where
  | null : Spells (.scalar .null) .null
  | bool (b : Bool) : Spells (.scalar (.bool b)) (.bool b)
  | number {n : Numeral} {x : Number} (text : NumeralText (Utf8.encodeChars x.written) n) :
      Spells (.scalar (.number n)) (.number x)
  | string {ps : List Piece} {s : String} (text : textOfPieces? ps = some s) :
      Spells (.scalar (.string ps)) (.string s)
  | array {ts : List Tree} {vs : List Value} (items : SpellsItems ts vs) :
      Spells (.array ts) (.array vs)
  | object {ns : List (Token × Tree)} {ms : List (String × Value)} (members : SpellsMembers ns ms) :
      Spells (.object ns) (.object ms)

inductive SpellsItems : List Tree → List Value → Prop where
  | nil : SpellsItems [] []
  | cons {t : Tree} {ts : List Tree} {v : Value} {vs : List Value} (first : Spells t v)
      (rest : SpellsItems ts vs) : SpellsItems (t :: ts) (v :: vs)

inductive SpellsMembers : List (Token × Tree) → List (String × Value) → Prop where
  | nil : SpellsMembers [] []
  | cons {ps : List Piece} {t : Tree} {ns : List (Token × Tree)} {name : String} {v : Value}
      {ms : List (String × Value)} (label : textOfPieces? ps = some name) (first : Spells t v)
      (rest : SpellsMembers ns ms) :
      SpellsMembers ((.scalar (.string ps), t) :: ns) ((name, v) :: ms)

end

/-! ## The text of a value -/

namespace Value

/-- A member as it is written. -/
def memberBytes (m : String × Value) : List UInt8 :=
  Utf8.encodeChars (writtenString m.1) ++ 58 :: m.2.toBytes

/-- The bytes of items: those of the first one, and the others with a comma before each. -/
theorem encodeChars_writtenItems (v : Value) (vs : List Value) :
    Utf8.encodeChars (writtenItems (v :: vs)) =
      v.toBytes ++ (vs.map toBytes).flatMap (44 :: ·) := by
  induction vs generalizing v with
  | nil => simp [writtenItems, toBytes]
  | cons w vs ih =>
    rw [writtenItems, Utf8.encodeChars_append, List.map_cons, List.flatMap_cons, List.cons_append,
      ← ih w]
    · rfl
    · exact List.cons_ne_nil w vs

/-- The bytes of members: those of the first one, and the others with a comma before each. -/
theorem encodeChars_writtenMembers (m : String × Value) (ms : List (String × Value)) :
    Utf8.encodeChars (writtenMembers (m :: ms)) =
      memberBytes m ++ (ms.map memberBytes).flatMap (44 :: ·) := by
  induction ms generalizing m with
  | nil =>
    simp only [writtenMembers, memberBytes, toBytes, Utf8.encodeChars_append, List.map_nil,
      List.flatMap_nil, List.append_nil]
    rfl
  | cons m' ms ih =>
    rw [writtenMembers, Utf8.encodeChars_append, Utf8.encodeChars_append, List.map_cons,
      List.flatMap_cons, List.cons_append, ← ih m']
    · rfl
    · exact List.cons_ne_nil m' ms

/-- The bytes of an array that is not empty. -/
theorem toBytes_array (v : Value) (vs : List Value) :
    (array (v :: vs)).toBytes = 91 :: (v.toBytes ++ ((vs.map toBytes).flatMap (44 :: ·) ++ [93])) := by
  rw [toBytes, written, ← List.append_assoc, ← encodeChars_writtenItems]
  show 91 :: Utf8.encodeChars (writtenItems (v :: vs) ++ [']']) = _
  rw [Utf8.encodeChars_append]
  rfl

/-- The bytes of an object that is not empty. -/
theorem toBytes_object (m : String × Value) (ms : List (String × Value)) :
    (object (m :: ms)).toBytes =
      123 :: (memberBytes m ++ ((ms.map memberBytes).flatMap (44 :: ·) ++ [125])) := by
  rw [toBytes, written, ← List.append_assoc, ← encodeChars_writtenMembers]
  show 123 :: Utf8.encodeChars (writtenMembers (m :: ms) ++ ['\x7d']) = _
  rw [Utf8.encodeChars_append]
  rfl

end Value

/-- A text is that of a tree, if the text ends there. -/
def TextOf (bs : List UInt8) (t : Tree) : Prop :=
  t.isComplete = true ∧ ∀ rest, Ends rest → idle.tokens (bs ++ rest) = t.tokens ++ idle.tokens rest

theorem TextOf.scalar {s : Scalar} {bs : List UInt8} (h : TokenText (.scalar s) bs) :
    TextOf bs (.scalar s) :=
  ⟨rfl, fun _ hrest => tokens_append h fun _ _ => hrest⟩

/-- The text of a member, after that of its name. -/
theorem tokens_memberBytes {m : String × Value} {ps : List Piece} {t : Tree}
    (hname : TokenText (.scalar (.string ps)) (Utf8.encodeChars (writtenString m.1)))
    (ht : TextOf m.2.toBytes t) {rest : List UInt8} (hrest : Ends rest) :
    idle.tokens (Value.memberBytes m ++ rest) =
      .scalar (.string ps) :: .colon :: (t.tokens ++ idle.tokens rest) := by
  rw [Value.memberBytes, List.append_assoc, tokens_append hname nofun, List.cons_append,
    tokens_mark (k := .colon) rfl, ht.2 rest hrest]

mutual

/-- **The text of a value is that of a tree of it.** -/
theorem exists_spelling (v : Value) : ∃ t, Spells t v ∧ TextOf v.toBytes t := by
  cases v with
  | null => exact ⟨_, .null, .scalar .null⟩
  | bool b =>
    cases b with
    | true => exact ⟨_, .bool true, .scalar .true⟩
    | false => exact ⟨_, .bool false, .scalar .false⟩
  | number x =>
    obtain ⟨n, htext⟩ := exists_numeral x
    exact ⟨_, .number htext, .scalar (.number htext)⟩
  | string s =>
    obtain ⟨ps, htext, htoken⟩ := exists_pieces s
    exact ⟨_, .string htext, .scalar htoken⟩
  | array vs =>
    -- the first item stands without a comma, so the rest is a lemma of its own
    cases vs with
    | nil =>
      refine ⟨.array [], .array .nil, rfl, fun rest _ => ?_⟩
      show idle.tokens (91 :: 93 :: rest) = _
      rw [tokens_mark (k := .openArray) rfl, tokens_mark (k := .closeArray) rfl]
      rfl
    | cons v vs =>
      obtain ⟨t, hv, ht, htokens⟩ := exists_spelling v
      obtain ⟨ts, hvs, hts, hmore⟩ := exists_items vs
      refine ⟨.array (t :: ts), .array (.cons hv hvs), ?_, fun rest _ => ?_⟩
      · rw [Tree.isComplete, Tree.itemsComplete, ht, hts, Bool.and_self]
      · rw [Value.toBytes_array, List.cons_append, List.append_assoc, List.append_assoc,
          List.singleton_append, tokens_mark (k := .openArray) rfl,
          htokens _ (ends_parts (.inl rfl) rest), hmore rest]
        simp [Tree.tokens]
  | object ms =>
    cases ms with
    | nil =>
      refine ⟨.object [], .object .nil, rfl, fun rest _ => ?_⟩
      show idle.tokens (123 :: 125 :: rest) = _
      rw [tokens_mark (k := .openObject) rfl, tokens_mark (k := .closeObject) rfl]
      rfl
    | cons m ms =>
      -- the same for the first member
      obtain ⟨ps, hname, htoken⟩ := exists_pieces m.1
      obtain ⟨t, hv, ht⟩ := exists_spelling m.2
      obtain ⟨ns, hms, hns, hmore⟩ := exists_members ms
      refine ⟨.object ((.scalar (.string ps), t) :: ns), .object (.cons hname hv hms), ?_,
        fun rest _ => ?_⟩
      · simp only [Tree.isComplete, Tree.membersComplete, ht.1, hns, Bool.and_self]
      · rw [Value.toBytes_object, List.cons_append, List.append_assoc, List.append_assoc,
          List.singleton_append, tokens_mark (k := .openObject) rfl,
          tokens_memberBytes htoken ht (ends_parts (.inr rfl) rest), hmore rest]
        simp [Tree.tokens]

/-- The items after the first one. -/
theorem exists_items (vs : List Value) : ∃ ts, SpellsItems ts vs ∧ Tree.itemsComplete ts = true ∧
    ∀ rest, idle.tokens ((vs.map Value.toBytes).flatMap (44 :: ·) ++ 93 :: rest) =
      Tree.moreItems ts ++ idle.tokens rest := by
  cases vs with
  | nil => exact ⟨[], .nil, rfl, fun rest => tokens_mark rfl rest⟩
  | cons v vs =>
    obtain ⟨t, hv, ht, htokens⟩ := exists_spelling v
    obtain ⟨ts, hvs, hts, hmore⟩ := exists_items vs
    refine ⟨t :: ts, .cons hv hvs, ?_, fun rest => ?_⟩
    · rw [Tree.itemsComplete, ht, hts, Bool.and_self]
    · rw [List.map_cons, List.flatMap_cons, List.append_assoc, List.cons_append,
        tokens_mark (k := .comma) rfl, htokens _ (ends_parts (.inl rfl) rest), hmore rest]
      simp [Tree.moreItems]

/-- The members after the first one. -/
theorem exists_members (ms : List (String × Value)) :
    ∃ ns, SpellsMembers ns ms ∧ Tree.membersComplete ns = true ∧
      ∀ rest, idle.tokens ((ms.map Value.memberBytes).flatMap (44 :: ·) ++ 125 :: rest) =
        Tree.moreMembers ns ++ idle.tokens rest := by
  cases ms with
  | nil => exact ⟨[], .nil, rfl, fun rest => tokens_mark rfl rest⟩
  | cons m ms =>
    obtain ⟨ps, hname, htoken⟩ := exists_pieces m.1
    obtain ⟨t, hv, ht⟩ := exists_spelling m.2
    obtain ⟨ns, hms, hns, hmore⟩ := exists_members ms
    refine ⟨(.scalar (.string ps), t) :: ns, .cons hname hv hms, ?_, fun rest => ?_⟩
    · simp only [Tree.membersComplete, ht.1, hns, Bool.and_self]
    · rw [List.map_cons, List.flatMap_cons, List.append_assoc, List.cons_append,
        tokens_mark (k := .comma) rfl,
        tokens_memberBytes htoken ht (ends_parts (.inr rfl) rest), hmore rest]
      simp [Tree.moreMembers]

end

/-- **The text of a value is the document of a tree of it.** -/
theorem exists_document (v : Value) :
    ∃ t, Spells t v ∧ Document.ofBytes v.toBytes = ⟨t, false⟩ := by
  obtain ⟨t, hv, ht, htokens⟩ := exists_spelling v
  refine ⟨t, hv, (Document.ofTokens_iff ht).mpr ?_⟩
  have hall := htokens [] .nil
  rw [List.append_nil] at hall
  rw [tokens, hall]
  exact List.append_nil _

/-! ## What values are made of -/

namespace Value

mutual

/-- How deep arrays and objects are nested, the outermost one counted. -/
def nesting : Value → Nat
  | .array vs => nestingOfItems vs + 1
  | .object ms => nestingOfMembers ms + 1
  | _ => 0

def nestingOfItems : List Value → Nat
  | [] => 0
  | v :: vs => max (nesting v) (nestingOfItems vs)

def nestingOfMembers : List (String × Value) → Nat
  | [] => 0
  | m :: ms => max (nesting m.2) (nestingOfMembers ms)

end

mutual

/-- Whether something holds of a value and of everything in it. -/
def Throughout (p : Value → Prop) : Value → Prop
  | .array vs => p (.array vs) ∧ ThroughoutItems p vs
  | .object ms => p (.object ms) ∧ ThroughoutMembers p ms
  | v => p v

def ThroughoutItems (p : Value → Prop) : List Value → Prop
  | [] => True
  | v :: vs => Throughout p v ∧ ThroughoutItems p vs

def ThroughoutMembers (p : Value → Prop) : List (String × Value) → Prop
  | [] => True
  | m :: ms => Throughout p m.2 ∧ ThroughoutMembers p ms

end

/-- An object keeps its members in ascending order, each name once. -/
def Sorted : Value → Prop
  | .object ms => Ascending ms
  | _ => True

/-- A number is an integer that 64 bits hold, with or without sign. -/
def Whole : Value → Prop
  | .number (.integer i) => -2 ^ 63 ≤ i ∧ i < 2 ^ 64
  | .number (.real _) => False
  | _ => True

/-- All objects are kept in order. -/
def Ordered (v : Value) : Prop :=
  v.Throughout Sorted

/-- All numbers are integers of 64 bits. -/
def Integral (v : Value) : Prop :=
  v.Throughout Whole

end Value

/-! ## Reading any value back -/

/-- A member whose name is past all others is added at the end. -/
theorem insertMember_concat {name : String} {v : Value} {done : List (String × Value)}
    (h : ∀ m ∈ done, m.1 < name) : insertMember name v done = done ++ [(name, v)] := by
  induction done with
  | nil => rfl
  | cons m done ih =>
    obtain ⟨hm, hdone⟩ := List.forall_mem_cons.mp h
    have hnot : ¬ name < m.1 := fun hlt => String.lt_irrefl _ (String.lt_trans hm hlt)
    have hne : name ≠ m.1 := fun heq => String.lt_irrefl _ (heq ▸ hm)
    rw [insertMember, if_neg hnot, if_neg hne, ih hdone]
    rfl

mutual

/-- **A tree of a value is read as the value.** -/
theorem ofValue_spelled {room : Nat} {t : Tree} {v : Value} (h : Spells t v) (hordered : v.Ordered)
    (hintegral : v.Integral) (hroom : v.nesting ≤ room) : ofValue room t = .ok v := by
  cases h with
  | null | bool => rfl
  | @number n x text =>
    -- an integer has one numeral, and it fits into 64 bits
    cases x with
    | integer i =>
      obtain rfl := numeral_unique text (numeralText_integer i)
      rw [ofValue, Scalar.value, number?_integer hintegral.1 hintegral.2]
    | real x => exact hintegral.elim
  | string text =>
    rw [ofValue, Scalar.value]
    simp only [text]
  | @array ts vs items =>
    cases room with
    | zero => exact absurd hroom (Nat.not_succ_le_zero _)
    | succ room =>
      have hitems := ofItems_spelled items hordered.2 hintegral.2 (Nat.le_of_succ_le_succ hroom)
      rw [ofValue, hitems]
      rfl
  | @object ns ms members =>
    cases room with
    | zero => exact absurd hroom (Nat.not_succ_le_zero _)
    | succ room =>
      have hmembers := ofMembers_spelled [] members hordered.1 hordered.2 hintegral.2
        (Nat.le_of_succ_le_succ hroom)
      rw [ofValue, hmembers]
      rfl

/-- Items that are spelled are read back, one after the other. -/
theorem ofItems_spelled {room : Nat} {ts : List Tree} {vs : List Value} (h : SpellsItems ts vs)
    (hordered : Value.ThroughoutItems Value.Sorted vs)
    (hintegral : Value.ThroughoutItems Value.Whole vs)
    (hroom : Value.nestingOfItems vs ≤ room) : ofItems room ts = .ok vs := by
  cases h with
  | nil => rfl
  | cons first rest =>
    obtain ⟨hfirst, hrest⟩ := Nat.max_le.mp hroom
    exact ofItems_cons_eq_ok.mpr ⟨_, _, ofValue_spelled first hordered.1 hintegral.1 hfirst,
      ofItems_spelled rest hordered.2 hintegral.2 hrest, rfl⟩

/-- So are members, in the order of their names. -/
theorem ofMembers_spelled {room : Nat} {ns : List (Token × Tree)} {ms : List (String × Value)}
    (done : List (String × Value)) (h : SpellsMembers ns ms) (hascending : Ascending (done ++ ms))
    (hordered : Value.ThroughoutMembers Value.Sorted ms)
    (hintegral : Value.ThroughoutMembers Value.Whole ms)
    (hroom : Value.nestingOfMembers ms ≤ room) : ofMembers room done ns = .ok (done ++ ms) := by
  cases h with
  | nil => rw [List.append_nil]; rfl
  | @cons ps t ns name v ms label first rest =>
    obtain ⟨hfirst, hrest⟩ := Nat.max_le.mp hroom
    refine ofMembers_cons_eq_ok.mpr ⟨name, v, name_eq_ok.mpr ⟨ps, rfl, label⟩,
      ofValue_spelled first hordered.1 hintegral.1 hfirst, ?_⟩
    -- names ascend, so each member is added at the end
    have hpast : ∀ m ∈ done, m.1 < name := fun m hm =>
      (List.pairwise_append.mp hascending).2.2 m hm _ List.mem_cons_self
    rw [List.append_cons] at hascending
    rw [insertMember_concat hpast, List.append_cons done (name, v) ms]
    exact ofMembers_spelled _ rest hascending hordered.2 hintegral.2 hrest

end

/-! ## Without the room -/

/-- What is no value of the grammar is malformed, and nothing else is wrong with a text. -/
theorem scalar_value_error {s : Scalar} {p : Problem} (h : s.value = .error p) :
    p = .malformed := by
  unfold Scalar.value at h
  split at h
  · cases h
  · cases h
  · split at h <;> cases h
    rfl
  · split at h <;> cases h
    rfl

theorem map_eq_error {α β : Type} {f : α → β} {x : Except Problem α} {p : Problem}
    (h : x.map f = .error p) : x = .error p := by
  cases x with
  | ok a => cases h
  | error q => rw [Except.error.inj h]

mutual

/-- **A value that is not read is malformed**: there is no other fault, since any value would do. -/
theorem ofValue_error {room : Nat} {p : Problem} (t : Tree) (h : ofValue room t = .error p) :
    p = .malformed := by
  cases t with
  | scalar s => exact scalar_value_error h
  | broken => cases h; rfl
  | array ts =>
    cases room with
    | zero => cases h; rfl
    | succ room => exact ofItems_error ts (map_eq_error h)
  | object ns =>
    cases room with
    | zero => cases h; rfl
    | succ room => exact ofMembers_error ns (map_eq_error h)

/-- The same for items. -/
theorem ofItems_error {room : Nat} {p : Problem} (ts : List Tree)
    (h : ofItems room ts = .error p) : p = .malformed := by
  cases ts with
  | nil => cases h
  | cons t ts =>
    rw [ofItems] at h
    split at h
    · exact ofItems_error ts (map_eq_error h)
    · next q hq =>
      obtain rfl := Except.error.inj h
      exact ofValue_error t hq

/-- The same for members, whose names may be malformed as well. -/
theorem ofMembers_error {room : Nat} {done : List (String × Value)} {p : Problem}
    (ns : List (Token × Tree)) (h : ofMembers room done ns = .error p) : p = .malformed := by
  cases ns with
  | nil => cases h
  | cons n ns =>
    obtain ⟨token, t⟩ := n
    simp only [ofMembers] at h
    split at h
    · split at h
      · exact ofMembers_error ns h
      · next q hq =>
        obtain rfl := Except.error.inj h
        exact ofValue_error t hq
    · next q hq =>
      obtain rfl := Except.error.inj h
      -- a name that is no text
      unfold Token.name at hq
      split at hq
      · split at hq <;> cases hq
        rfl
      · cases hq
        rfl

end

mutual

/-- What is read had room for the value, whatever was read for it. -/
theorem nesting_le {room : Nat} {t : Tree} {v v' : Value} (h : Spells t v)
    (hread : ofValue room t = .ok v') : v.nesting ≤ room := by
  cases h with
  | null | bool | number | string => exact Nat.zero_le _
  | array items =>
    cases room with
    | zero => cases hread
    | succ room =>
      obtain ⟨vs', hitems, -⟩ := map_eq_ok.mp hread
      exact Nat.succ_le_succ (nestingOfItems_le items hitems)
  | object members =>
    cases room with
    | zero => cases hread
    | succ room =>
      obtain ⟨ms', hmembers, -⟩ := map_eq_ok.mp hread
      exact Nat.succ_le_succ (nestingOfMembers_le members hmembers)

/-- Items that are read are nested no deeper than the room allows. -/
theorem nestingOfItems_le {room : Nat} {ts : List Tree} {vs vs' : List Value}
    (h : SpellsItems ts vs) (hread : ofItems room ts = .ok vs') :
    Value.nestingOfItems vs ≤ room := by
  cases h with
  | nil => exact Nat.zero_le _
  | cons first rest =>
    obtain ⟨v, more, hv, hmore, -⟩ := ofItems_cons_eq_ok.mp hread
    exact Nat.max_le.mpr ⟨nesting_le first hv, nestingOfItems_le rest hmore⟩

/-- Nor are members. -/
theorem nestingOfMembers_le {room : Nat} {ns : List (Token × Tree)}
    {ms done ms' : List (String × Value)} (h : SpellsMembers ns ms)
    (hread : ofMembers room done ns = .ok ms') : Value.nestingOfMembers ms ≤ room := by
  cases h with
  | nil => exact Nat.zero_le _
  | cons label first rest =>
    obtain ⟨name, v, -, hv, hmore⟩ := ofMembers_cons_eq_ok.mp hread
    exact Nat.max_le.mpr ⟨nesting_le first hv, nestingOfMembers_le rest hmore⟩

end

/-- **Without the room nothing is read**, whatever the value holds. -/
theorem ofValue_too_deep {room : Nat} {t : Tree} {v : Value} (h : Spells t v)
    (hroom : room < v.nesting) : ofValue room t = .error .malformed := by
  cases hread : ofValue room t with
  | ok v' => exact absurd (nesting_le h hread) (Nat.not_le_of_lt hroom)
  | error p => rw [ofValue_error t hread]

end ClusterClient.Json
