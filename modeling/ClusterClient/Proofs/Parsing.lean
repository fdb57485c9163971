import ClusterClient.Proofs.Building
import ClusterClient.Proofs.Strings

/-!
# Reading any value

The decoder of any value finds in a body the value that the grammar gives to it, and nothing else.

* **`Written`**: a value's text, seen as the tokens of a tree that is decoded to it.
* **`Denotes.written`**: every text of the grammar is so, by induction on its derivation.
* **`denotes_of_tokens`**: what begins with the tokens of a tree begins with a text of the grammar,
  by induction on the tree.
* **`decode_ofValue_iff`**: both directions.
-/

namespace ClusterClient.Json

open Lexeme Decoder

/-! ## From the grammar to the decoder -/

/-- The tokens of a text are those of a tree that is decoded to a value, if the text ends there. -/
def Written (room : Nat) (bs : List UInt8) (v : Value) : Prop :=
  ∃ t : Tree, t.isComplete = true ∧ ofValue room t = .ok v ∧
    ∀ rest, Ends rest → idle.tokens (bs ++ rest) = t.tokens ++ idle.tokens rest

/-- A scalar with a value is written as its token. -/
theorem written_of_scalar {s : Scalar} {bs : List UInt8} {v : Value}
    (text : TokenText (.scalar s) bs) (value : s.value = .ok v) (room : Nat) :
    Written room bs v :=
  ⟨.scalar s, rfl, value, fun _ hrest => tokens_append text fun _ _ => hrest⟩

/-- What comes after a part: another one, or the closing bracket or brace. -/
theorem ends_parts {parts : List (List UInt8)} {close : UInt8} (hclose : close = 93 ∨ close = 125)
    (rest : List UInt8) : Ends (parts.flatMap (44 :: ·) ++ close :: rest) := by
  cases parts with
  | nil => exact ends_cons.mpr (.inr (.inr hclose))
  | cons p ps => exact ends_cons.mpr (.inr (.inl rfl))

/-- The items after the first one. -/
theorem written_items {room : Nat} {parts : List (List UInt8 × Value)}
    (h : ∀ p ∈ parts, Written room p.1 p.2) :
    ∃ ts, Tree.itemsComplete ts = true ∧ ofItems room ts = .ok (parts.map Prod.snd) ∧
      ∀ rest, idle.tokens ((parts.map Prod.fst).flatMap (44 :: ·) ++ 93 :: rest) =
        Tree.moreItems ts ++ idle.tokens rest := by
  induction parts with
  | nil => exact ⟨[], rfl, rfl, fun rest => tokens_mark rfl rest⟩
  | cons p parts ih =>
    obtain ⟨⟨t, ht, hv, htokens⟩, hparts⟩ := List.forall_mem_cons.mp h
    obtain ⟨ts, hts, hvs, hmore⟩ := ih hparts
    refine ⟨t :: ts, ?_, ?_, fun rest => ?_⟩
    · rw [Tree.itemsComplete, ht, hts, Bool.and_self]
    · exact ofItems_cons_eq_ok.mpr ⟨p.2, _, hv, hvs, rfl⟩
    · rw [List.map_cons, List.flatMap_cons, List.append_assoc, List.cons_append,
        tokens_mark (k := .comma) rfl, htokens _ (ends_parts (.inl rfl) rest), hmore rest]
      simp [Tree.moreItems]

/-- An array is written as its items are, with commas between them. -/
theorem written_array {room : Nat} {inner : List UInt8} {parts : List (List UInt8 × Value)}
    (laid : Laid inner (parts.map Prod.fst)) (h : ∀ p ∈ parts, Written room p.1 p.2) :
    Written (room + 1) (91 :: (inner ++ [93])) (.array (parts.map Prod.snd)) := by
  cases parts with
  | nil =>
    cases laid with
    | blank hinner =>
      refine ⟨.array [], rfl, rfl, fun rest _ => ?_⟩
      rw [List.cons_append, List.append_assoc, tokens_mark (k := .openArray) rfl,
        tokens_blank hinner]
      exact congrArg (Token.openArray :: ·) (tokens_mark (k := .closeArray) rfl rest)
  | cons p parts =>
    cases laid with
    | commas =>
      obtain ⟨⟨t, ht, hv, htokens⟩, hparts⟩ := List.forall_mem_cons.mp h
      obtain ⟨ts, hts, hvs, hmore⟩ := written_items hparts
      refine ⟨.array (t :: ts), ?_, ?_, fun rest _ => ?_⟩
      -- complete, decoded, and written with these tokens
      · rw [Tree.isComplete, Tree.itemsComplete, ht, hts, Bool.and_self]
      · exact map_eq_ok.mpr ⟨_, ofItems_cons_eq_ok.mpr ⟨p.2, _, hv, hvs, rfl⟩, rfl⟩
      · rw [List.cons_append, List.append_assoc, List.append_assoc, List.singleton_append,
          tokens_mark (k := .openArray) rfl, htokens _ (ends_parts (.inl rfl) rest), hmore rest]
        simp [Tree.tokens]

/-- A member of an object, as its name, a colon and its value. -/
theorem written_member {room : Nat} {e : Entry} (label : e.Labelled)
    (h : Written room e.body e.value) :
    ∃ ps t, textOfPieces? ps = some e.name ∧ t.isComplete = true ∧ ofValue room t = .ok e.value ∧
      ∀ rest, Ends rest → idle.tokens (e.text ++ rest) =
        .scalar (.string ps) :: .colon :: (t.tokens ++ idle.tokens rest) := by
  obtain ⟨ws, quoted, ws', hws, hws', ⟨inner, rfl, htext⟩, hlabel⟩ := label
  obtain ⟨ps, hps, hname⟩ := stringText_iff.mp htext
  obtain ⟨t, ht, hv, htokens⟩ := h
  -- space, the name, space, the colon, the value
  refine ⟨ps, t, hname, ht, hv, fun rest hrest => ?_⟩
  rw [Entry.text, hlabel, List.append_assoc, List.append_assoc, List.append_assoc, tokens_blank hws,
    tokens_append (.string hps) nofun, tokens_blank hws', List.cons_append,
    tokens_mark (k := .colon) rfl, htokens _ hrest]

/-- The members after the first one. -/
theorem written_members {room : Nat} {es : List Entry} (labels : ∀ e ∈ es, e.Labelled)
    (h : ∀ e ∈ es, Written room e.body e.value) :
    ∃ ms, Tree.membersComplete ms = true ∧
      (∀ done, ofMembers room done ms =
        .ok ((es.map Entry.member).foldl (fun done m => insertMember m.1 m.2 done) done)) ∧
      ∀ rest, idle.tokens ((es.map Entry.text).flatMap (44 :: ·) ++ 125 :: rest) =
        Tree.moreMembers ms ++ idle.tokens rest := by
  induction es with
  | nil => exact ⟨[], rfl, fun _ => rfl, fun rest => tokens_mark rfl rest⟩
  | cons e es ih =>
    obtain ⟨hlabel, hlabels⟩ := List.forall_mem_cons.mp labels
    obtain ⟨hvalue, hvalues⟩ := List.forall_mem_cons.mp h
    obtain ⟨ps, t, hname, ht, hv, htokens⟩ := written_member hlabel hvalue
    obtain ⟨ms, hms, hvs, hmore⟩ := ih hlabels hvalues
    refine ⟨(.scalar (.string ps), t) :: ms, ?_, fun done => ?_, fun rest => ?_⟩
    · simp only [Tree.membersComplete, ht, hms, Bool.and_self]
    · exact ofMembers_cons_eq_ok.mpr ⟨e.name, e.value, name_eq_ok.mpr ⟨ps, rfl, hname⟩, hv, hvs _⟩
    · rw [List.map_cons, List.flatMap_cons, List.append_assoc, List.cons_append,
        tokens_mark (k := .comma) rfl, htokens _ (ends_parts (.inr rfl) rest), hmore rest]
      simp [Tree.moreMembers]

/-- An object is written as its members are, each with a colon after its name. -/
theorem written_object {room : Nat} {inner : List UInt8} {es : List Entry}
    (laid : Laid inner (es.map Entry.text)) (labels : ∀ e ∈ es, e.Labelled)
    (h : ∀ e ∈ es, Written room e.body e.value) :
    Written (room + 1) (123 :: (inner ++ [125])) (.ofMembers (es.map Entry.member)) := by
  cases es with
  | nil =>
    cases laid with
    | blank hinner =>
      refine ⟨.object [], rfl, rfl, fun rest _ => ?_⟩
      rw [List.cons_append, List.append_assoc, tokens_mark (k := .openObject) rfl,
        tokens_blank hinner]
      exact congrArg (Token.openObject :: ·) (tokens_mark (k := .closeObject) rfl rest)
  | cons e es =>
    cases laid with
    | commas =>
      obtain ⟨hlabel, hlabels⟩ := List.forall_mem_cons.mp labels
      obtain ⟨hvalue, hvalues⟩ := List.forall_mem_cons.mp h
      obtain ⟨ps, t, hname, ht, hv, htokens⟩ := written_member hlabel hvalue
      obtain ⟨ms, hms, hvs, hmore⟩ := written_members hlabels hvalues
      refine ⟨.object ((.scalar (.string ps), t) :: ms), ?_, ?_, fun rest _ => ?_⟩
      · -- complete, decoded, and written with these tokens
        simp only [Tree.isComplete, Tree.membersComplete, ht, hms, Bool.and_self]
      · refine map_eq_ok.mpr ⟨_, ofMembers_cons_eq_ok.mpr ?_, rfl⟩
        exact ⟨e.name, e.value, name_eq_ok.mpr ⟨ps, rfl, hname⟩, hv, hvs _⟩
      · rw [List.cons_append, List.append_assoc, List.append_assoc, List.singleton_append,
          tokens_mark (k := .openObject) rfl, htokens _ (ends_parts (.inr rfl) rest), hmore rest]
        simp [Tree.tokens]

/-- **A text of the grammar is read as what it denotes.** -/
theorem Denotes.written {room : Nat} {bs : List UInt8} {v : Value} (h : Denotes room bs v) :
    Written room bs v := by
  -- by induction on the text, one case for each form of a value
  induction h with
  | null => exact written_of_scalar .null rfl _
  | true => exact written_of_scalar .true rfl _
  | false => exact written_of_scalar .false rfl _
  | number text number =>
    refine written_of_scalar (.number text) ?_ _
    simp only [Scalar.value, number]
  | string text =>
    obtain ⟨inner, rfl, htext⟩ := text
    obtain ⟨ps, hps, hs⟩ := stringText_iff.mp htext
    refine written_of_scalar (.string hps) ?_ _
    simp only [Scalar.value, hs]
  | array laid _ ih => exact written_array laid ih
  | object laid labels _ ih => exact written_object laid labels ih
  | @padded room ws bs ws' v before _ after ih =>
    obtain ⟨t, ht, hv, htokens⟩ := ih
    refine ⟨t, ht, hv, fun rest hrest => ?_⟩
    -- space adds no token, and ends a numeral before it
    rw [List.append_assoc, List.append_assoc, tokens_blank before, htokens _ (hrest.blank after),
      tokens_blank after]

/-! ## From the decoder to the grammar -/

mutual

/-- What is decoded keeps the grammar. -/
theorem isComplete_of_ofValue {room : Nat} {v : Value} (t : Tree) (h : ofValue room t = .ok v) :
    t.isComplete = true := by
  match t, room with
  | .scalar s, _ => rfl
  | .array items, room + 1 =>
    obtain ⟨vs, hvs, -⟩ := map_eq_ok.mp h
    exact itemsComplete_of_ofItems items hvs
  | .object members, room + 1 =>
    obtain ⟨ms, hms, -⟩ := map_eq_ok.mp h
    exact membersComplete_of_ofMembers members hms

/-- Items that are values keep the grammar. -/
theorem itemsComplete_of_ofItems {room : Nat} {vs : List Value} (ts : List Tree)
    (h : ofItems room ts = .ok vs) : Tree.itemsComplete ts = true := by
  match ts with
  | [] => rfl
  | t :: ts =>
    obtain ⟨v, more, hv, hmore, -⟩ := ofItems_cons_eq_ok.mp h
    rw [Tree.itemsComplete, isComplete_of_ofValue t hv, itemsComplete_of_ofItems ts hmore,
      Bool.and_self]

/-- So do members. -/
theorem membersComplete_of_ofMembers {room : Nat} {done final : List (String × Value)}
    (ms : List (Token × Tree)) (h : ofMembers room done ms = .ok final) :
    Tree.membersComplete ms = true := by
  match ms with
  | [] => rfl
  | (token, t) :: ms =>
    obtain ⟨name, v, hname, hv, hmore⟩ := ofMembers_cons_eq_ok.mp h
    obtain ⟨ps, rfl, -⟩ := name_eq_ok.mp hname
    simp only [Tree.membersComplete, isComplete_of_ofValue t hv,
      membersComplete_of_ofMembers ms hmore, Bool.and_self]

end

/-- The text of a scalar denotes its value. -/
theorem denotes_of_scalar {room : Nat} {s : Scalar} {bs : List UInt8} {v : Value}
    (h : TokenText (.scalar s) bs) (hv : s.value = .ok v) : Denotes room bs v := by
  cases h with
  | mark hmark => cases hmark
  | null =>
    cases hv
    exact .null
  | true =>
    cases hv
    exact .true
  | false =>
    cases hv
    exact .false
  | number text =>
    simp only [Scalar.value] at hv
    split at hv
    · next x hx =>
      cases hv
      exact .number text hx
    · cases hv
  | string text =>
    simp only [Scalar.value] at hv
    split at hv
    · next name hname =>
      cases hv
      exact .string ⟨_, rfl, stringText_iff.mpr ⟨_, text, hname⟩⟩
    · cases hv

/-- If a mark is found, its byte is there, after space. -/
theorem exists_mark {k : Token} {b : UInt8} (hk : k.mark? = some b) {bs : List UInt8}
    {ks : List Token} (h : idle.tokens bs = k :: ks) :
    ∃ ws rest, bs = ws ++ b :: rest ∧ Blank ws ∧ idle.tokens rest = ks := by
  have hflaw : k ≠ .flaw := by
    rintro rfl
    cases hk
  obtain ⟨ws, text, rest, rfl, hws, htext, hrest⟩ := exists_tokenText hflaw h
  cases htext with
  | mark hmark =>
    -- a mark has one byte, and no scalar has a mark
    obtain rfl := Option.some.inj (hk.symm.trans hmark)
    exact ⟨ws, rest, rfl, hws, hrest⟩
  | null | true | false | number | string => cases hk

/-- The name of a member, up to the colon. -/
theorem exists_label {ps : List Piece} {name : String} (hname : textOfPieces? ps = some name)
    {bs : List UInt8} {ks : List Token}
    (h : idle.tokens bs = .scalar (.string ps) :: .colon :: ks) :
    ∃ label rest, bs = label ++ 58 :: rest ∧
      (∀ body v, Entry.Labelled ⟨label, name, body, v⟩) ∧ idle.tokens rest = ks := by
  obtain ⟨ws, text, rest, rfl, hws, htext, hrest⟩ :=
    exists_tokenText (k := .scalar (.string ps)) nofun h
  obtain ⟨ws', rest, rfl, hws', hrest⟩ := exists_mark (k := .colon) rfl hrest
  cases htext with
  | mark hmark => cases hmark
  | @string inner _ text =>
    refine ⟨ws ++ 34 :: (inner ++ [34]) ++ ws', rest, by simp, fun body v => ?_, hrest⟩
    exact ⟨ws, _, ws', hws, hws', ⟨inner, rfl, stringText_iff.mpr ⟨ps, text, hname⟩⟩, rfl⟩

mutual

/-- **What begins with the tokens of a tree begins with a text of its value.** -/
theorem denotes_of_tokens {room : Nat} {v : Value} {bs : List UInt8} {ks : List Token} (t : Tree)
    (hv : ofValue room t = .ok v) (h : idle.tokens bs = t.tokens ++ ks) :
    ∃ text rest, bs = text ++ rest ∧ Denotes room text v ∧ idle.tokens rest = ks := by
  match t, room with
  | .scalar s, _ =>
    -- space before a token goes to the text of the value
    obtain ⟨ws, text, rest, rfl, hws, htext, hrest⟩ := exists_tokenText (k := .scalar s) nofun h
    exact ⟨ws ++ text, rest, by simp, (denotes_of_scalar htext hv).before hws, hrest⟩
  | .array [], room + 1 =>
    cases hv
    obtain ⟨ws, rest, rfl, hws, hrest⟩ := exists_mark (k := .openArray) rfl h
    obtain ⟨ws', rest, rfl, hws', hrest⟩ := exists_mark (k := .closeArray) rfl hrest
    have htext : Denotes (room + 1) (91 :: (ws' ++ [93])) (.array []) :=
      @Denotes.array room ws' [] (.blank hws') (by simp)
    exact ⟨_, rest, by simp, htext.before hws, hrest⟩
  | .array (t :: ts), room + 1 =>
    -- the first item stands without a comma, the others have one each
    obtain ⟨vs, hvs, rfl⟩ := map_eq_ok.mp hv
    obtain ⟨v, more, hfirst, hmore, rfl⟩ := ofItems_cons_eq_ok.mp hvs
    rw [Tree.tokens, List.cons_append, List.append_assoc] at h
    obtain ⟨ws, rest, rfl, hws, hrest⟩ := exists_mark (k := .openArray) rfl h
    obtain ⟨text, rest, rfl, htext, hrest⟩ := denotes_of_tokens t hfirst hrest
    obtain ⟨ws', parts, rest, rfl, hws', hparts, rfl, hrest⟩ := items_of_tokens ts hmore hrest
    have harray := @Denotes.array room _ ((text ++ ws', v) :: parts) (.commas _ _)
      (List.forall_mem_cons.mpr ⟨htext.after hws', hparts⟩)
    exact ⟨_, rest, by simp, harray.before hws, hrest⟩
  | .object [], room + 1 =>
    cases hv
    obtain ⟨ws, rest, rfl, hws, hrest⟩ := exists_mark (k := .openObject) rfl h
    obtain ⟨ws', rest, rfl, hws', hrest⟩ := exists_mark (k := .closeObject) rfl hrest
    have htext : Denotes (room + 1) (123 :: (ws' ++ [125])) (.ofMembers []) :=
      @Denotes.object room ws' [] (.blank hws') (by simp) (by simp)
    exact ⟨_, rest, by simp, htext.before hws, hrest⟩
  | .object ((token, t) :: ms), room + 1 =>
    -- a member whose name is no string is not decoded
    obtain ⟨final, hfinal, rfl⟩ := map_eq_ok.mp hv
    obtain ⟨name, v, hname, hfirst, hmore⟩ := ofMembers_cons_eq_ok.mp hfinal
    obtain ⟨ps, rfl, hps⟩ := name_eq_ok.mp hname
    rw [Tree.tokens, List.cons_append, List.cons_append, List.cons_append, List.append_assoc] at h
    obtain ⟨ws, rest, rfl, hws, hrest⟩ := exists_mark (k := .openObject) rfl h
    obtain ⟨label, rest, rfl, hlabel, hrest⟩ := exists_label hps hrest
    obtain ⟨text, rest, rfl, htext, hrest⟩ := denotes_of_tokens t hfirst hrest
    obtain ⟨ws', es, rest, rfl, hws', hlabels, hes, rfl, hrest⟩ := members_of_tokens ms hmore hrest
    have hobject := @Denotes.object room _ (⟨label, name, text ++ ws', v⟩ :: es) (.commas _ _)
      (List.forall_mem_cons.mpr ⟨hlabel _ _, hlabels⟩)
      (List.forall_mem_cons.mpr ⟨htext.after hws', hes⟩)
    exact ⟨_, rest, by simp [Entry.text], hobject.before hws, hrest⟩

/-- The items after the first one, up to the bracket. Space before a comma or the bracket goes to
the item before it. -/
theorem items_of_tokens {room : Nat} {vs : List Value} {bs : List UInt8} {ks : List Token}
    (ts : List Tree) (hvs : ofItems room ts = .ok vs)
    (h : idle.tokens bs = Tree.moreItems ts ++ ks) :
    ∃ (ws : List UInt8) (parts : List (List UInt8 × Value)) (rest : List UInt8),
      bs = ws ++ ((parts.map Prod.fst).flatMap (44 :: ·) ++ 93 :: rest) ∧ Blank ws ∧
        (∀ p ∈ parts, Denotes room p.1 p.2) ∧ vs = parts.map Prod.snd ∧ idle.tokens rest = ks := by
  match ts with
  | [] =>
    cases hvs
    obtain ⟨ws, rest, rfl, hws, hrest⟩ := exists_mark (k := .closeArray) rfl h
    exact ⟨ws, [], rest, rfl, hws, by simp, rfl, hrest⟩
  | t :: ts =>
    obtain ⟨v, more, hfirst, hmore, rfl⟩ := ofItems_cons_eq_ok.mp hvs
    rw [Tree.moreItems, List.cons_append, List.append_assoc] at h
    obtain ⟨ws, rest, rfl, hws, hrest⟩ := exists_mark (k := .comma) rfl h
    obtain ⟨text, rest, rfl, htext, hrest⟩ := denotes_of_tokens t hfirst hrest
    obtain ⟨ws', parts, rest, rfl, hws', hparts, rfl, hrest⟩ := items_of_tokens ts hmore hrest
    refine ⟨ws, (text ++ ws', v) :: parts, rest, by simp, hws, ?_, rfl, hrest⟩
    exact List.forall_mem_cons.mpr ⟨htext.after hws', hparts⟩

/-- The members after the first one, up to the brace. -/
theorem members_of_tokens {room : Nat} {done final : List (String × Value)} {bs : List UInt8}
    {ks : List Token} (ms : List (Token × Tree)) (hms : ofMembers room done ms = .ok final)
    (h : idle.tokens bs = Tree.moreMembers ms ++ ks) :
    ∃ (ws : List UInt8) (es : List Entry) (rest : List UInt8),
      bs = ws ++ ((es.map Entry.text).flatMap (44 :: ·) ++ 125 :: rest) ∧ Blank ws ∧
        (∀ e ∈ es, e.Labelled) ∧ (∀ e ∈ es, Denotes room e.body e.value) ∧
        final = (es.map Entry.member).foldl (fun done m => insertMember m.1 m.2 done) done ∧
        idle.tokens rest = ks := by
  match ms with
  | [] =>
    cases hms
    obtain ⟨ws, rest, rfl, hws, hrest⟩ := exists_mark (k := .closeObject) rfl h
    exact ⟨ws, [], rest, rfl, hws, by simp, by simp, rfl, hrest⟩
  | (token, t) :: ms =>
    obtain ⟨name, v, hname, hfirst, hmore⟩ := ofMembers_cons_eq_ok.mp hms
    obtain ⟨ps, rfl, hps⟩ := name_eq_ok.mp hname
    rw [Tree.moreMembers, List.cons_append, List.cons_append, List.cons_append,
      List.append_assoc] at h
    obtain ⟨ws, rest, rfl, hws, hrest⟩ := exists_mark (k := .comma) rfl h
    obtain ⟨label, rest, rfl, hlabel, hrest⟩ := exists_label hps hrest
    obtain ⟨text, rest, rfl, htext, hrest⟩ := denotes_of_tokens t hfirst hrest
    obtain ⟨ws', es, rest, rfl, hws', hlabels, hes, rfl, hrest⟩ := members_of_tokens ms hmore hrest
    refine ⟨ws, ⟨label, name, text ++ ws', v⟩ :: es, rest, by simp [Entry.text], hws, ?_, ?_, rfl,
      hrest⟩
    · exact List.forall_mem_cons.mpr ⟨hlabel _ _, hlabels⟩
    · exact List.forall_mem_cons.mpr ⟨htext.after hws', hes⟩

end

/-- **The decoder of any value accepts the texts of the grammar**, each for what it denotes, and
nothing else. -/
theorem decode_ofValue_iff {bs : List UInt8} {v : Value} :
    decode ofValue bs = .ok v ↔ Denotes nestingLimit bs v := by
  rw [decode_eq_ok]
  constructor
  · -- a complete tree whose tokens are all there: what follows its text is space
    rintro ⟨hv, htrailing⟩
    have hcomplete := isComplete_of_ofValue _ hv
    have htokens : tokens bs = (Document.ofBytes bs).tree.tokens ++ [] := by
      rw [List.append_nil]
      exact (Document.ofTokens_iff hcomplete).mp (by rw [← htrailing]; rfl)
    obtain ⟨text, rest, rfl, htext, hrest⟩ := denotes_of_tokens _ hv htokens
    exact htext.after (blank_of_tokens hrest)
  · -- the tokens of a text determine its document
    intro h
    obtain ⟨t, ht, hv, htokens⟩ := h.written
    have hdocument : Document.ofBytes bs = ⟨t, false⟩ := by
      refine (Document.ofTokens_iff ht).mpr ?_
      have hnil := htokens [] Ends.nil
      rwa [List.append_nil, show idle.tokens [] = [] from rfl, List.append_nil] at hnil
    rw [hdocument]
    exact ⟨hv, rfl⟩

end ClusterClient.Json
