import ClusterClient.Json.Decoder

/-!
# Trees and their tokens

The machine that builds syntax trees and the tokens of a tree are inverse to one another: the
tokens of a complete tree build that tree, and only they do.

* **`Tree.tokens`**: a tree, written out again.
* **`Builder.foldl_tokens`**: from wherever a value is due, the tokens of a complete tree push it.
* **`Reading`**, **`Built`**: the invariant of the machine, namely what it has read so far.
* **`Document.ofTokens_iff`**: both directions.
-/

namespace ClusterClient.Json

namespace Tree

mutual

/-- A tree as tokens. -/
def tokens : Tree → List Token
  | .scalar s => [.scalar s]
  | .array [] => [.openArray, .closeArray]
  | .array (t :: ts) => .openArray :: (tokens t ++ moreItems ts)
  | .object [] => [.openObject, .closeObject]
  | .object ((name, t) :: ms) => .openObject :: name :: .colon :: (tokens t ++ moreMembers ms)
  | .broken => [.flaw]

/-- The items of an array after the first one, and its end. -/
def moreItems : List Tree → List Token
  | [] => [.closeArray]
  | t :: ts => .comma :: (tokens t ++ moreItems ts)

/-- The members of an object after the first one, and its end. -/
def moreMembers : List (Token × Tree) → List Token
  | [] => [.closeObject]
  | (name, t) :: ms => .comma :: name :: .colon :: (tokens t ++ moreMembers ms)

end

/-- A member as tokens. -/
def memberTokens (m : Token × Tree) : List Token :=
  m.1 :: .colon :: m.2.tokens

/-- The tokens after an array's opening bracket, with the last item apart. -/
theorem moreItems_concat (ts : List Tree) (t : Tree) :
    .comma :: ts.flatMap (fun t => t.tokens ++ [.comma]) ++ t.tokens ++ [.closeArray] =
      moreItems (ts ++ [t]) := by
  induction ts with
  | nil => simp [moreItems]
  | cons u ts ih => simp [moreItems, ← ih]

/-- The tokens of an array, with the last item apart. -/
theorem tokens_array_concat (ts : List Tree) (t : Tree) :
    tokens (.array (ts ++ [t])) =
      .openArray :: ts.flatMap (fun t => t.tokens ++ [.comma]) ++ t.tokens ++ [.closeArray] := by
  cases ts with
  | nil => simp [tokens, moreItems]
  | cons u ts => simp [tokens, ← moreItems_concat]

/-- The tokens after an object's opening brace, with the last member apart. -/
theorem moreMembers_concat (ms : List (Token × Tree)) (m : Token × Tree) :
    .comma :: ms.flatMap (fun m => memberTokens m ++ [.comma]) ++ memberTokens m ++ [.closeObject] =
      moreMembers (ms ++ [m]) := by
  induction ms with
  | nil => simp [moreMembers, memberTokens]
  | cons u ms ih => simp [moreMembers, memberTokens, ← ih]

/-- The tokens of an object, with the last member apart. -/
theorem tokens_object_concat (ms : List (Token × Tree)) (m : Token × Tree) :
    tokens (.object (ms ++ [m])) =
      .openObject :: ms.flatMap (fun m => memberTokens m ++ [.comma]) ++ memberTokens m ++
        [.closeObject] := by
  cases ms with
  | nil => simp [tokens, moreMembers, memberTokens]
  | cons u ms => simp [tokens, memberTokens, ← moreMembers_concat]

/-- The names of complete members are strings. -/
theorem name_of_complete {name : Token} {t : Tree} {ms : List (Token × Tree)}
    (h : membersComplete ((name, t) :: ms) = true) :
    (∃ ps, name = .scalar (.string ps)) ∧ t.isComplete = true ∧ membersComplete ms = true := by
  unfold membersComplete at h
  split at h
  · next ps =>
    simp only [Bool.true_and, Bool.and_eq_true] at h
    exact ⟨⟨ps, rfl⟩, h⟩
  · simp at h

end Tree

namespace Builder

/-- Where a value is due: where one must come, or at the first item of an array. -/
inductive Due : List Frame → Slot → Prop where
  | value {stack : List Frame} : Due stack .value
  | item {stack : List Frame} : Due (.array [] :: stack) .item

/-- Where a value is due, a token that opens or completes one does so. -/
theorem Due.step {stack : List Frame} {slot : Slot} (h : Due stack slot) {k : Token}
    {b : Builder} (hk : open? stack k = some b) : (inside stack slot).step k = b := by
  cases h with
  | value => simp [Builder.step, advance?, hk]
  | item =>
    have hne : k ≠ .closeArray := by
      rintro rfl
      cases hk
    simp [Builder.step, advance?, hk, hne]

mutual

/-- **The tokens of a complete tree push it**, wherever a value is due. -/
theorem foldl_tokens {stack : List Frame} {slot : Slot} (h : Due stack slot) (t : Tree)
    (ht : t.isComplete = true) : t.tokens.foldl step (inside stack slot) = push t stack := by
  match t with
  | .scalar s => exact h.step rfl
  | .array [] =>
    rw [Tree.tokens, List.foldl_cons, h.step rfl]
    rfl
  | .array (t :: ts) =>
    obtain ⟨ht, hts⟩ : t.isComplete = true ∧ Tree.itemsComplete ts = true := by
      simpa [Tree.isComplete, Tree.itemsComplete] using ht
    rw [Tree.tokens, List.foldl_cons, h.step rfl, List.foldl_append, foldl_tokens .item t ht]
    exact foldl_moreItems ts hts [t] stack
  | .object [] =>
    rw [Tree.tokens, List.foldl_cons, h.step rfl]
    rfl
  | .object ((name, t) :: ms) =>
    obtain ⟨⟨ps, rfl⟩, ht, hms⟩ := Tree.name_of_complete (by simpa [Tree.isComplete] using ht)
    -- after the brace, the name and the colon, the value of the first member is due
    rw [Tree.tokens, List.foldl_cons, h.step rfl, List.foldl_cons, List.foldl_cons,
      List.foldl_append]
    show List.foldl step (t.tokens.foldl step (inside (.member [] _ :: stack) .value)) _ = _
    rw [foldl_tokens .value t ht]
    exact foldl_moreMembers ms hms [(_, t)] stack

/-- **The rest of an array** is read into its frame, whose items are kept in reverse order. -/
theorem foldl_moreItems (ts : List Tree) (hts : Tree.itemsComplete ts = true)
    (items : List Tree) (stack : List Frame) :
    (Tree.moreItems ts).foldl step (inside (.array items :: stack) .comma) =
      push (.array (items.reverse ++ ts)) stack := by
  match ts with
  | [] =>
    rw [List.append_nil]
    rfl
  | t :: ts =>
    obtain ⟨ht, hts⟩ : t.isComplete = true ∧ Tree.itemsComplete ts = true := by
      simpa [Tree.itemsComplete] using hts
    rw [Tree.moreItems, List.foldl_cons, List.foldl_append]
    show List.foldl step (t.tokens.foldl step (inside (.array items :: stack) .value)) _ = _
    rw [foldl_tokens .value t ht, push, foldl_moreItems ts hts (t :: items) stack,
      List.reverse_cons, List.append_assoc, List.singleton_append]

/-- **The rest of an object** is read into its frame, whose members are kept in reverse order. -/
theorem foldl_moreMembers (ms : List (Token × Tree)) (hms : Tree.membersComplete ms = true)
    (members : List (Token × Tree)) (stack : List Frame) :
    (Tree.moreMembers ms).foldl step (inside (.object members :: stack) .comma) =
      push (.object (members.reverse ++ ms)) stack := by
  match ms with
  | [] =>
    rw [List.append_nil]
    rfl
  | (name, t) :: ms =>
    obtain ⟨⟨ps, rfl⟩, ht, hms⟩ := Tree.name_of_complete hms
    rw [Tree.moreMembers, List.foldl_cons, List.foldl_cons, List.foldl_cons, List.foldl_append]
    show List.foldl step (t.tokens.foldl step (inside (.member members _ :: stack) .value)) _ = _
    rw [foldl_tokens .value t ht, push, foldl_moreMembers ms hms ((_, t) :: members) stack,
      List.reverse_cons, List.append_assoc, List.singleton_append]

end

end Builder

/-! ## What has been read -/

namespace Frame

/-- What has been read of an open array or object when the next item, member or value is due. -/
def before : Frame → List Token
  | .array items => .openArray :: items.reverse.flatMap fun t => t.tokens ++ [.comma]
  | .object ms => .openObject :: ms.reverse.flatMap fun m => Tree.memberTokens m ++ [.comma]
  | .member ms name =>
    .openObject :: ms.reverse.flatMap (fun m => Tree.memberTokens m ++ [.comma]) ++ [name, .colon]

/-- Whether a value is due in a frame. -/
def Awaits : Frame → Prop
  | .array _ | .member _ _ => True
  | .object _ => False

/-- What has been read of all frames, the outermost first. -/
def beforeAll : List Frame → List Token
  | [] => []
  | f :: fs => beforeAll fs ++ f.before

end Frame

/-- What has been read inside a text, by what is allowed next. -/
inductive Reading : List Frame → Slot → List Token → Prop where
  | value {stack : List Frame} (awaits : ∀ f ∈ stack, f.Awaits) :
      Reading stack .value (Frame.beforeAll stack)
  | item {stack : List Frame} (awaits : ∀ f ∈ stack, f.Awaits) :
      Reading (.array [] :: stack) .item (Frame.beforeAll stack ++ [.openArray])
  | name {stack : List Frame} (awaits : ∀ f ∈ stack, f.Awaits) :
      Reading (.object [] :: stack) .name (Frame.beforeAll stack ++ [.openObject])
  | nextName {stack : List Frame} {ms : List (Token × Tree)} (awaits : ∀ f ∈ stack, f.Awaits) :
      Reading (.object ms :: stack) .nextName (Frame.beforeAll (.object ms :: stack))
  | colon {stack : List Frame} {ms : List (Token × Tree)} {name : Token}
      (awaits : ∀ f ∈ stack, f.Awaits) :
      Reading (.member ms name :: stack) .colon (Frame.beforeAll (.object ms :: stack) ++ [name])
  | commaItem {stack : List Frame} {items : List Tree} {t : Tree}
      (awaits : ∀ f ∈ stack, f.Awaits) :
      Reading (.array (t :: items) :: stack) .comma
        (Frame.beforeAll (.array items :: stack) ++ t.tokens)
  | commaMember {stack : List Frame} {ms : List (Token × Tree)} {m : Token × Tree}
      (awaits : ∀ f ∈ stack, f.Awaits) :
      Reading (.object (m :: ms) :: stack) .comma
        (Frame.beforeAll (.object ms :: stack) ++ Tree.memberTokens m)

/-- What has been read of a text; nothing is said once it is broken or something follows it. -/
inductive Built : Builder → List Token → Prop where
  | inside {stack : List Frame} {slot : Slot} {ks : List Token} (reading : Reading stack slot ks) :
      Built (.inside stack slot) ks
  | whole (t : Tree) : Built (.whole t false) t.tokens
  | trailing {t : Tree} {ks : List Token} : Built (.whole t true) ks
  | cut {t : Tree} {ks : List Token} (broken : t.isComplete = false) : Built (.cut t) ks

namespace Builder

theorem itemsComplete_append (ts us : List Tree) :
    Tree.itemsComplete (ts ++ us) = (Tree.itemsComplete ts && Tree.itemsComplete us) := by
  induction ts with
  | nil => rfl
  | cons t ts ih => simp [Tree.itemsComplete, ih, Bool.and_assoc]

theorem membersComplete_append (ms ns : List (Token × Tree)) :
    Tree.membersComplete (ms ++ ns) = (Tree.membersComplete ms && Tree.membersComplete ns) := by
  induction ms with
  | nil => rfl
  | cons m ms ih => simp [Tree.membersComplete, ih, Bool.and_assoc]

/-- A tree that is broken stays so when what is around it is closed. -/
theorem close_broken {t : Tree} (h : t.isComplete = false) (f : Frame) :
    (collapse.close t f).isComplete = false := by
  cases f with
  | array items => simp [collapse.close, Tree.isComplete, itemsComplete_append, Tree.itemsComplete, h]
  | member ms name | object ms =>
    simp [collapse.close, Tree.isComplete, membersComplete_append, Tree.membersComplete, h]

/-- A tree that is cut off is not complete. -/
theorem collapse_broken (stack : List Frame) : (collapse stack).isComplete = false := by
  have hfold : ∀ (fs : List Frame) (t : Tree), t.isComplete = false →
      (fs.foldl collapse.close t).isComplete = false := by
    intro fs
    induction fs with
    | nil => exact fun t h => h
    | cons f fs ih => exact fun t h => ih _ (close_broken h f)
  cases stack with
  | nil => rfl
  | cons f fs => exact hfold _ _ rfl

/-- A complete value goes into the innermost frame. -/
theorem built_push {stack : List Frame} (h : ∀ f ∈ stack, f.Awaits) (t : Tree) :
    Built (push t stack) (Frame.beforeAll stack ++ t.tokens) := by
  cases stack with
  | nil => exact .whole t
  | cons f stack =>
    have hrest : ∀ f ∈ stack, f.Awaits := fun g hg => h g (List.mem_cons_of_mem _ hg)
    cases f with
    | array items => exact .inside (.commaItem hrest)
    | member ms name =>
      have hreading : Reading (.object ((name, t) :: ms) :: stack) .comma _ := .commaMember hrest
      simpa [push, Frame.beforeAll, Frame.before, Tree.memberTokens] using Built.inside hreading
    | object ms => exact (h _ List.mem_cons_self).elim

/-- After a token that opens a value, the tokens read so far are those of the open frames. -/
theorem built_open {stack : List Frame} (h : ∀ f ∈ stack, f.Awaits) {k : Token} {b : Builder}
    (hk : open? stack k = some b) : Built b (Frame.beforeAll stack ++ [k]) := by
  cases k with
  | scalar s =>
    obtain rfl := Option.some.inj hk
    exact built_push h (.scalar s)
  | openArray =>
    obtain rfl := Option.some.inj hk
    exact .inside (.item h)
  | openObject =>
    obtain rfl := Option.some.inj hk
    exact .inside (.name h)
  | closeArray | closeObject | comma | colon | flaw => cases hk

/-- **The step.** A token that the grammar allows has been read with the others. -/
theorem built_advance {stack : List Frame} {slot : Slot} {ks : List Token}
    (h : Reading stack slot ks) {k : Token} {b : Builder} (hk : advance? stack slot k = some b) :
    Built b (ks ++ [k]) := by
  cases h with
  | value awaits => exact built_open awaits hk
  | @item stack awaits =>
    have hall : ∀ f ∈ Frame.array [] :: stack, f.Awaits := by simpa [Frame.Awaits] using awaits
    simp only [advance?] at hk
    split at hk
    · next hclose =>
      cases hk
      subst hclose
      simpa [Tree.tokens] using built_push awaits (.array [])
    · simpa [Frame.beforeAll, Frame.before] using built_open hall hk
  | @name stack awaits =>
    simp only [advance?] at hk
    split at hk
    · next hclose =>
      cases hk
      subst hclose
      simpa [Tree.tokens] using built_push awaits (.object [])
    · split at hk
      · cases hk
        have hreading : Reading (.member [] k :: stack) .colon _ := .colon awaits
        simpa [Frame.beforeAll, Frame.before] using Built.inside hreading
      · cases hk
  | @nextName stack ms awaits =>
    simp only [advance?] at hk
    split at hk
    · cases hk
      exact .inside (.colon awaits)
    · cases hk
  | @colon stack ms name awaits =>
    have hall : ∀ f ∈ Frame.member ms name :: stack, f.Awaits := by
      simpa [Frame.Awaits] using awaits
    simp only [advance?] at hk
    split at hk
    · next hcolon =>
      cases hk
      subst hcolon
      simpa [Frame.beforeAll, Frame.before] using Built.inside (Reading.value hall)
    · cases hk
  | @commaItem stack items t awaits =>
    have hall : ∀ f ∈ Frame.array (t :: items) :: stack, f.Awaits := by
      simpa [Frame.Awaits] using awaits
    simp only [advance?] at hk
    split at hk
    · next hcomma =>
      cases hk
      subst hcomma
      simpa [Frame.beforeAll, Frame.before] using Built.inside (Reading.value hall)
    · split at hk
      · next hclose =>
        cases hk
        subst hclose
        -- what was read of the array is the array but for the bracket
        have := built_push awaits (.array (items.reverse ++ [t]))
        rw [Tree.tokens_array_concat] at this
        simpa [Frame.beforeAll, Frame.before] using this
      · cases hk
  | @commaMember stack ms m awaits =>
    simp only [advance?] at hk
    split at hk
    · next hcomma =>
      cases hk
      subst hcomma
      have hreading : Reading (.object (m :: ms) :: stack) .nextName _ := .nextName awaits
      simpa [Frame.beforeAll, Frame.before] using Built.inside hreading
    · split at hk
      · next hclose =>
        cases hk
        subst hclose
        -- what was read of the object is the object but for the brace
        have := built_push awaits (.object (ms.reverse ++ [m]))
        rw [Tree.tokens_object_concat] at this
        simpa [Frame.beforeAll, Frame.before] using this
      · cases hk

/-- **One token**: what has been built accounts for the tokens read so far. -/
theorem built_step {b : Builder} {ks : List Token} (h : Built b ks) (k : Token) :
    Built (b.step k) (ks ++ [k]) := by
  cases h with
  | @inside stack slot _ reading =>
    simp only [step]
    cases hk : advance? stack slot k with
    | none => exact .cut (collapse_broken stack)
    | some b => exact built_advance reading hk
  | whole | trailing => exact .trailing
  | cut broken => exact .cut broken

/-- **All tokens**, by induction on them from the last one. -/
theorem built_foldl (ks : List Token) : Built (ks.foldl step start) ks := by
  have hfold : ∀ (ks : List Token) {b : Builder} {before : List Token}, Built b before →
      Built (ks.foldl step b) (before ++ ks) := by
    intro ks
    induction ks with
    | nil => exact fun h => by simpa using h
    | cons k ks ih => exact fun h => by simpa using ih (built_step h k)
  exact hfold ks (.inside (.value (by simp)))

end Builder

namespace Document

/-- **The tokens of a complete tree, and only they, build it.** -/
theorem ofTokens_iff {ks : List Token} {t : Tree} (h : t.isComplete = true) :
    ofTokens ks = ⟨t, false⟩ ↔ ks = t.tokens := by
  constructor
  · intro hks
    have hbuilt := Builder.built_foldl ks
    unfold ofTokens at hks
    generalize ks.foldl Builder.step .start = b at hks hbuilt
    cases hbuilt with
    | @inside stack slot _ reading =>
      obtain rfl : Builder.collapse stack = t := congrArg Document.tree hks
      rw [Builder.collapse_broken] at h
      cases h
    | whole t' =>
      obtain rfl : t' = t := congrArg Document.tree hks
      rfl
    | trailing => cases hks
    | @cut t' _ broken =>
      obtain rfl : t' = t := congrArg Document.tree hks
      rw [broken] at h
      cases h
  · rintro rfl
    rw [ofTokens, Builder.start, Builder.foldl_tokens .value t h]
    rfl

end Document

end ClusterClient.Json
