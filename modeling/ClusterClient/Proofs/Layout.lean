import ClusterClient.Proofs.Building
import ClusterClient.Proofs.Lexing

/-!
# Trees and their texts

A text of a syntax tree is made of the tokens of the tree, each as it may be written, with space
before, between and after them. Which text of a tree is decoded makes no difference: the space is
insignificant. Nothing is asked of strings and numerals but the grammar, so a tree may hold parts
that denote nothing.

* **`TokensText`**, **`TreeText`**: the texts of a list of tokens, and those of a tree.
* **`Orderly`**: in the tokens of a tree a numeral is never followed by what could go on with it.
* **`treeText_iff`**: the lexer finds the tokens of a tree in the texts of the tree and in no
  others.
* **`TreeText.decode`**: what a decoder makes of a text is what it makes of its tree.
-/

namespace ClusterClient.Json

open Lexeme

/-- The texts of a list of tokens. -/
inductive TokensText : List Token → List UInt8 → Prop where
  | nil {ws : List UInt8} (blank : Blank ws) : TokensText [] ws
  | cons {k : Token} {ks : List Token} {ws text bs : List UInt8} (blank : Blank ws)
      (token : TokenText k text) (rest : TokensText ks bs) :
      TokensText (k :: ks) (ws ++ (text ++ bs))

/-- The texts of a tree that keeps the grammar. -/
def TreeText (t : Tree) (bs : List UInt8) : Prop :=
  t.isComplete = true ∧ TokensText t.tokens bs

/-- The members of a complete object are complete. -/
theorem Tree.isComplete_of_mem {ms : List (Token × Tree)} (h : Tree.membersComplete ms = true)
    {m : Token × Tree} (hm : m ∈ ms) : m.2.isComplete = true := by
  induction ms with
  | nil => cases hm
  | cons first ms ih =>
    obtain ⟨-, hfirst, hrest⟩ := Tree.name_of_complete h
    rcases List.mem_cons.mp hm with rfl | hm
    · exact hfirst
    · exact ih hrest hm

/-! ## The order of tokens -/

/-- What may follow a numeral in a tree. -/
def Closes (ks : List Token) : Prop :=
  ∀ k ∈ ks.head?, k = .comma ∨ k = .closeArray ∨ k = .closeObject

/-- There is no flaw, and what follows a numeral ends it. -/
inductive Orderly : List Token → Prop where
  | nil : Orderly []
  | cons {k : Token} {ks : List Token} (flawless : k ≠ .flaw)
      (closes : ∀ n, k = .scalar (.number n) → Closes ks) (rest : Orderly ks) : Orderly (k :: ks)

/-- A bracket, brace, comma or colon may stand anywhere, since no numeral goes on with it. -/
theorem Orderly.mark {k : Token} {b : UInt8} (h : k.mark? = some b) {ks : List Token}
    (rest : Orderly ks) : Orderly (k :: ks) := by
  refine .cons ?_ ?_ rest
  · rintro rfl
    cases h
  · rintro n rfl
    cases h

/-- The name of a member and the colon after it. -/
theorem Orderly.label {ps : List Piece} {ks : List Token} (rest : Orderly ks) :
    Orderly (.scalar (.string ps) :: .colon :: ks) :=
  .cons nofun nofun (.mark rfl rest)

theorem closes_moreItems (ts : List Tree) (ks : List Token) : Closes (Tree.moreItems ts ++ ks) := by
  cases ts with
  | nil => simp [Closes, Tree.moreItems]
  | cons t ts => simp [Closes, Tree.moreItems]

/-- The tokens after a member begin with a comma or a brace. -/
theorem closes_moreMembers (ms : List (Token × Tree)) (ks : List Token) :
    Closes (Tree.moreMembers ms ++ ks) := by
  cases ms with
  | nil => simp [Closes, Tree.moreMembers]
  | cons m ms => simp [Closes, Tree.moreMembers]

mutual

/-- **The tokens of a tree are in order**, in front of others that are and that end a numeral. -/
theorem orderly_tokens (t : Tree) (ht : t.isComplete = true) {ks : List Token} (hcloses : Closes ks)
    (hks : Orderly ks) : Orderly (t.tokens ++ ks) := by
  match t with
  | .scalar s => exact .cons nofun (fun _ _ => hcloses) hks
  | .array [] => exact .mark rfl (.mark rfl hks)
  | .array (t :: ts) =>
    obtain ⟨ht, hts⟩ : t.isComplete = true ∧ Tree.itemsComplete ts = true := by
      simpa [Tree.isComplete, Tree.itemsComplete] using ht
    rw [Tree.tokens, List.cons_append, List.append_assoc]
    exact .mark rfl (orderly_tokens t ht (closes_moreItems ts ks) (orderly_moreItems ts hts hks))
  | .object [] => exact .mark rfl (.mark rfl hks)
  | .object ((name, t) :: ms) =>
    obtain ⟨⟨ps, rfl⟩, ht, hms⟩ := Tree.name_of_complete (by simpa [Tree.isComplete] using ht)
    rw [Tree.tokens, List.cons_append, List.cons_append, List.cons_append, List.append_assoc]
    refine .mark rfl (.label ?_)
    exact orderly_tokens t ht (closes_moreMembers ms ks) (orderly_moreMembers ms hms hks)

/-- The tokens of further items are orderly, since a comma stands between them. -/
theorem orderly_moreItems (ts : List Tree) (hts : Tree.itemsComplete ts = true) {ks : List Token}
    (hks : Orderly ks) : Orderly (Tree.moreItems ts ++ ks) := by
  match ts with
  | [] => exact .mark rfl hks
  | t :: ts =>
    obtain ⟨ht, hts⟩ : t.isComplete = true ∧ Tree.itemsComplete ts = true := by
      simpa [Tree.itemsComplete] using hts
    rw [Tree.moreItems, List.cons_append, List.append_assoc]
    exact .mark rfl (orderly_tokens t ht (closes_moreItems ts ks) (orderly_moreItems ts hts hks))

/-- So are those of further members. -/
theorem orderly_moreMembers (ms : List (Token × Tree)) (hms : Tree.membersComplete ms = true)
    {ks : List Token} (hks : Orderly ks) : Orderly (Tree.moreMembers ms ++ ks) := by
  match ms with
  | [] => exact .mark rfl hks
  | (name, t) :: ms =>
    obtain ⟨⟨ps, rfl⟩, ht, hms⟩ := Tree.name_of_complete hms
    rw [Tree.moreMembers, List.cons_append, List.cons_append, List.cons_append, List.append_assoc]
    refine .mark rfl (.label ?_)
    exact orderly_tokens t ht (closes_moreMembers ms ks) (orderly_moreMembers ms hms hks)

end

/-! ## From texts to tokens and back -/

/-- Before tokens that end a numeral, a numeral ends. -/
theorem TokensText.ends {ks : List Token} {bs : List UInt8} (h : TokensText ks bs)
    (hcloses : Closes ks) : Ends bs := by
  cases h with
  | nil blank =>
    rw [← List.append_nil bs]
    exact Ends.nil.blank blank
  | @cons k ks ws text bs blank token rest =>
    refine Ends.blank blank ?_
    have hmark : ∃ b, k.mark? = some b ∧ (b = 44 ∨ b = 93 ∨ b = 125) := by
      rcases hcloses k rfl with rfl | rfl | rfl
      · exact ⟨44, rfl, .inl rfl⟩
      · exact ⟨93, rfl, .inr (.inl rfl)⟩
      · exact ⟨125, rfl, .inr (.inr rfl)⟩
    obtain ⟨b, hb, hends⟩ := hmark
    cases token with
    | mark mark =>
      obtain rfl := Option.some.inj (hb.symm.trans mark)
      exact ends_cons.mpr (.inr hends)
    | null | true | false | number | string => cases hb

/-- The lexer finds the tokens of a text, and finds them in no other text. -/
theorem tokensText_iff {ks : List Token} (h : Orderly ks) {bs : List UInt8} :
    TokensText ks bs ↔ idle.tokens bs = ks := by
  induction h generalizing bs with
  | nil =>
    constructor
    · intro hbs
      cases hbs with
      | nil blank =>
        rw [← List.append_nil bs, tokens_blank blank]
        rfl
    · exact fun hbs => .nil (blank_of_tokens hbs)
  | @cons k ks flawless closes _ ih =>
    constructor
    · intro hbs
      cases hbs with
      | cons blank token rest =>
        rw [tokens_blank blank, tokens_append token fun n hn => rest.ends (closes n hn), ih.mp rest]
    · intro hbs
      obtain ⟨ws, text, rest, rfl, blank, token, hrest⟩ := exists_tokenText flawless hbs
      exact .cons blank token (ih.mpr hrest)

/-- **The texts of a tree** are those in which its tokens are found. -/
theorem treeText_iff {t : Tree} {bs : List UInt8} :
    TreeText t bs ↔ t.isComplete = true ∧ Json.tokens bs = t.tokens := by
  refine and_congr_right fun ht => tokensText_iff ?_
  have horderly : Orderly (t.tokens ++ []) := orderly_tokens t ht nofun .nil
  rwa [List.append_nil] at horderly

/-- The text of a tree is read as that tree, with nothing after it. -/
theorem TreeText.document {t : Tree} {bs : List UInt8} (h : TreeText t bs) :
    Document.ofBytes bs = ⟨t, false⟩ :=
  (Document.ofTokens_iff h.1).mpr (treeText_iff.mp h).2

/-- **A text is decoded as its tree is.** -/
theorem TreeText.decode {α : Type} {t : Tree} {bs : List UInt8} (h : TreeText t bs)
    (d : Decoder α) : Json.decode d bs = d nestingLimit t := by
  unfold Json.decode
  rw [h.document]
  dsimp only
  cases d nestingLimit t <;> rfl

end ClusterClient.Json
