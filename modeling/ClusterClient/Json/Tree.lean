import ClusterClient.Json.Lexer

/-!
# Syntax trees

A tree of everything that can be read before the grammar is broken. Where it is broken the tree
holds a `broken` leaf, as the value that was due or as the last item or member of every array and
object that was still open, so whoever walks a tree from left to right meets the first problem of
the text at its place.

* `Tree`: values with their items and members in the order of the text;
* `Builder`: a machine that takes tokens one by one, its open arrays and objects on a stack;
* `Document`: the tree of a text, and whether anything follows it.
-/

namespace ClusterClient.Json

/-- A value as it was written. A member is named by the token that stood in the place of its name,
which in JSON is a string. -/
inductive Tree where
  | scalar (s : Scalar)
  | array (items : List Tree)
  | object (members : List (Token × Tree))
  | broken

/-- A text: its first value, and whether tokens follow it. -/
structure Document where
  tree : Tree
  trailing : Bool

/-- An open array or object, what it holds in reverse order. An object may wait for the value of
a named member. -/
inductive Frame where
  | array (items : List Tree)
  | object (members : List (Token × Tree))
  | member (members : List (Token × Tree)) (name : Token)

/-- What the grammar allows next. -/
inductive Slot where
  /-- A value. -/
  | value
  /-- The first item of an array, or its end. -/
  | item
  /-- The first member of an object, or its end. -/
  | name
  /-- A member after a comma. -/
  | nextName
  /-- The colon after a name. -/
  | colon
  /-- A comma or the end of the innermost array or object. -/
  | comma
  deriving DecidableEq, Repr

/-- The state of the machine: inside the text's value, after it, or after the grammar broke. -/
inductive Builder where
  | inside (stack : List Frame) (slot : Slot)
  | whole (t : Tree) (trailing : Bool)
  | cut (t : Tree)

namespace Builder

def start : Builder := inside [] .value

/-- A value is complete: it goes into the innermost frame, or is the text's value. -/
def push (t : Tree) : List Frame → Builder
  | [] => whole t false
  | .array items :: rest => inside (.array (t :: items) :: rest) .comma
  | .member members name :: rest => inside (.object ((name, t) :: members) :: rest) .comma
  | .object members :: rest => inside (.object members :: rest) .comma

/-- The grammar is broken: every frame is closed with a broken last part. -/
def collapse : List Frame → Tree
  | [] => .broken
  | frames => frames.foldl close .broken
where
  /-- A frame whose last part is the given tree. -/
  close (t : Tree) : Frame → Tree
    | .array items => .array (t :: items).reverse
    | .member members name => .object ((name, t) :: members).reverse
    | .object members => .object ((.flaw, t) :: members).reverse

def open? (stack : List Frame) : Token → Option Builder
  | .scalar s => some (push (.scalar s) stack)
  | .openArray => some (inside (.array [] :: stack) .item)
  | .openObject => some (inside (.object [] :: stack) .name)
  | _ => none

/-- Whether a token can name a member of some text, if only a faulty one. -/
def isName : Token → Bool
  | .scalar _ | .openArray | .openObject => true
  | _ => false

/-- The machine after a token that the grammar allows, `none` after any other. -/
def advance? (stack : List Frame) (slot : Slot) (k : Token) : Option Builder :=
  match slot, stack with
  | .value, _ => open? stack k
  | .item, .array items :: rest =>
    if k = .closeArray then some (push (.array items.reverse) rest) else open? stack k
  | .name, .object members :: rest =>
    if k = .closeObject then some (push (.object members.reverse) rest)
    else if isName k then some (inside (.member members k :: rest) .colon)
    else none
  | .nextName, .object members :: rest =>
    if isName k then some (inside (.member members k :: rest) .colon) else none
  | .colon, _ => if k = .colon then some (inside stack .value) else none
  | .comma, .array items :: rest =>
    if k = .comma then some (inside stack .value)
    else if k = .closeArray then some (push (.array items.reverse) rest)
    else none
  | .comma, .object members :: rest =>
    if k = .comma then some (inside stack .nextName)
    else if k = .closeObject then some (push (.object members.reverse) rest)
    else none
  | _, _ => none

/-- The machine after one more token. -/
def step (b : Builder) (k : Token) : Builder :=
  match b with
  | inside stack slot => (advance? stack slot k).getD (cut (collapse stack))
  | whole t _ => whole t true
  | cut t => cut t

/-- The document when there are no more tokens. -/
def finish : Builder → Document
  | inside stack _ => ⟨collapse stack, false⟩
  | whole t trailing => ⟨t, trailing⟩
  | cut t => ⟨t, false⟩

end Builder

namespace Document

def ofTokens (ks : List Token) : Document :=
  (ks.foldl Builder.step .start).finish

def ofBytes (bytes : List UInt8) : Document :=
  ofTokens (tokens bytes)

end Document

namespace Tree

mutual

/-- Whether the grammar is kept all through the tree. -/
def isComplete : Tree → Bool
  | .scalar _ => true
  | .array items => itemsComplete items
  | .object members => membersComplete members
  | .broken => false

def itemsComplete : List Tree → Bool
  | [] => true
  | t :: ts => isComplete t && itemsComplete ts

/-- Whether all members keep the grammar, their names being strings. -/
def membersComplete : List (Token × Tree) → Bool
  | [] => true
  | (name, t) :: ms =>
    (match name with
      | .scalar (.string _) => true
      | _ => false) && isComplete t && membersComplete ms

end

end Tree

end ClusterClient.Json
