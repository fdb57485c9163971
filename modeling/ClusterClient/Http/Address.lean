import ClusterClient.Text.Hex
import ClusterClient.Text.Utf8

/-!
# Web addresses

The form in which a URL is put on the wire: what may not stand in it is percent-encoded, and the
dot segments of its path are resolved.

* `Address`: an address by its parts;
* `Address.ofUrl`: the normal form of a URL with an authority;
* `Address.target`: what a request line names.
-/

namespace ClusterClient

/-- A web address. The origin is scheme and authority; query and fragment lack their mark. -/
structure Address where
  origin : List Char
  path : List Char
  query : Option (List Char)
  fragment : Option (List Char)
  deriving DecidableEq, Repr

namespace Address

/-- A character with each byte of its UTF-8 form percent-encoded. -/
def escaped (c : Char) : List Char :=
  (String.utf8EncodeChar c).flatMap fun b =>
    ['%', (hexDigit (b.toNat / 16)).toUpper, (hexDigit b.toNat).toUpper]

/-- Text with the given marks, control characters and all that is not ASCII percent-encoded. -/
def escapeText (marks : List Char) (cs : List Char) : List Char :=
  cs.flatMap fun c =>
    if c.toNat < 32 ∨ 126 < c.toNat ∨ marks.contains c then escaped c else [c]

def pathMarks : List Char := [' ', '"', '#', '<', '>', '?', '\x60', '\x7b', '\x7d']

def queryMarks : List Char := [' ', '"', '#', '<', '>', '\'']

/-- The marks that are encoded in a fragment. -/
def fragmentMarks : List Char := [' ', '"', '<', '>', '\x60']

/-- Whether a character separates the segments of a path. -/
def isSeparator (c : Char) : Bool :=
  c = '/' || c = '\\'

/-- The segments of a path without its leading slash. -/
def segments : List Char → List (List Char)
  | [] => [[]]
  | c :: cs =>
    if isSeparator c then [] :: segments cs
    else
      match segments cs with
      | [] => [[c]]
      | s :: ss => (c :: s) :: ss

/-- A segment with encoded dots decoded, which is how dot segments are recognised. -/
def plainDots : List Char → List Char
  | '%' :: '2' :: 'e' :: cs | '%' :: '2' :: 'E' :: cs => '.' :: plainDots cs
  | c :: cs => c :: plainDots cs
  | [] => []

/-- Resolves dot segments. A segment of two dots takes the one before it away; at the end of a
path a dot segment leaves an empty one. -/
def resolve (done : List (List Char)) : List (List Char) → List (List Char)
  | [] => done.reverse
  | [s] =>
    if plainDots s = ['.', '.'] then ([] :: done.tail).reverse
    else if plainDots s = ['.'] then ([] :: done).reverse
    else (s :: done).reverse
  | s :: ss =>
    if plainDots s = ['.', '.'] then resolve done.tail ss
    else if plainDots s = ['.'] then resolve done ss
    else resolve (s :: done) ss

def normalPath (cs : List Char) : List Char :=
  let inner := match cs with
    | c :: rest => if isSeparator c then rest else cs
    | [] => []
  (resolve [] ((segments inner).map (escapeText pathMarks))).flatMap ('/' :: ·)

/-- Text up to a mark, and the text after the mark if it occurs. -/
def cut (mark : Char) (cs : List Char) : List Char × Option (List Char) :=
  match cs.dropWhile (· != mark) with
  | [] => (cs, none)
  | _ :: rest => (cs.takeWhile (· != mark), some rest)

/-- Text without control characters and spaces at its ends, and without tabs and line ends. -/
def cleaned (cs : List Char) : List Char :=
  let outer := fun c : Char => decide (c.toNat ≤ 32)
  (((cs.dropWhile outer).reverse.dropWhile outer).reverse).filter fun c =>
    !(c = '\t' || c = '\n' || c = '\r')

/-- The address of a URL whose origin is known. -/
def ofParts (origin rest : List Char) : Address :=
  let (beforeFragment, fragment) := cut '#' rest
  let (path, query) := cut '?' beforeFragment
  ⟨origin, normalPath path, query.map (escapeText queryMarks),
    fragment.map (escapeText fragmentMarks)⟩

/-- The address of a URL that begins with an origin. -/
def ofUrl (url : String) : Address :=
  let cs := cleaned url.toList
  let (scheme, rest) := cut ':' cs
  let afterSlashes := (rest.getD []).dropWhile isSeparator
  let inAuthority := fun c => !(isSeparator c || c = '?' || c = '#')
  ofParts (scheme ++ "://".toList ++ afterSlashes.takeWhile inAuthority)
    (afterSlashes.dropWhile inAuthority)

/-- What a request line names: path and query. -/
def target (a : Address) : List Char :=
  a.path ++ (a.query.map ('?' :: ·)).getD []

def text (a : Address) : List Char :=
  a.origin ++ a.target ++ (a.fragment.map ('#' :: ·)).getD []

end Address

end ClusterClient
