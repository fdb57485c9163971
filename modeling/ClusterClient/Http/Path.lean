/-!
# Paths and URLs

A request path begins with a slash; a URL is an endpoint without its trailing slashes followed by
such a path.
-/

namespace ClusterClient

/-- The path with a slash in front, if it has none. -/
def absolutePath (path : String) : String :=
  if path.toList.head? = some '/' then path else String.ofList ('/' :: path.toList)

/-- A path with a slash in front stays as it is. -/
theorem absolutePath_of_slash {path : String} (h : path.toList.head? = some '/') :
    absolutePath path = path := by
  simp [absolutePath, h]

/-- A path without one gets it, also if it is empty. -/
theorem absolutePath_of_no_slash {path : String} (h : path.toList.head? ≠ some '/') :
    absolutePath path = "/" ++ path := by
  rw [absolutePath, if_neg h, ← String.toList_inj]
  simp

/-- Every path that is asked for begins with a slash. -/
theorem head?_absolutePath (path : String) : (absolutePath path).toList.head? = some '/' := by
  by_cases h : path.toList.head? = some '/'
  · rw [absolutePath_of_slash h]
    exact h
  · simp [absolutePath, h]

def trimSlashes (cs : List Char) : List Char :=
  (cs.reverse.dropWhile (· == '/')).reverse

def dropSlash : List Char → List Char
  | '/' :: cs => cs
  | cs => cs

def joinUrl (endpoint path : String) : String :=
  String.ofList (trimSlashes endpoint.toList ++ '/' :: dropSlash path.toList)

/-- Slashes are trimmed only behind the last other character. -/
theorem trimSlashes_append_cons {c : Char} (hc : c ≠ '/') (cs ds : List Char) :
    trimSlashes (cs ++ c :: ds) = cs ++ c :: trimSlashes ds := by
  have hreverse : (cs ++ c :: ds).reverse = ds.reverse ++ c :: cs.reverse := by simp
  have hstop : (c :: cs.reverse).dropWhile (· == '/') = c :: cs.reverse :=
    List.dropWhile_cons_of_neg (by simpa using hc)
  rw [trimSlashes, hreverse, List.dropWhile_append, hstop]
  split
  · next hall => simp [trimSlashes, List.isEmpty_iff.mp hall]
  · simp [trimSlashes]

/-- Trimming takes characters from the end only. -/
theorem trimSlashes_isPrefix (cs : List Char) : trimSlashes cs <+: cs := by
  have h := List.dropWhile_suffix (l := cs.reverse) (· == '/')
  rw [← List.reverse_prefix, List.reverse_reverse] at h
  exact h

/-- Nothing but slashes is trimmed. -/
theorem mem_trimSlashes {c : Char} (hc : c ≠ '/') {cs : List Char} :
    c ∈ trimSlashes cs ↔ c ∈ cs := by
  constructor
  · exact fun h => (trimSlashes_isPrefix cs).subset h
  · intro h
    obtain ⟨before, after, rfl⟩ := List.append_of_mem h
    simp [trimSlashes_append_cons hc]

/-- The path after the slash that joins it to an endpoint. -/
theorem cons_dropSlash (path : String) :
    '/' :: dropSlash path.toList = (absolutePath path).toList := by
  by_cases h : path.toList.head? = some '/'
  · obtain ⟨rest, hrest⟩ := List.head?_eq_some_iff.mp h
    rw [absolutePath_of_slash h, hrest]
    rfl
  · have hkept : dropSlash path.toList = path.toList := by
      unfold dropSlash
      split
      · next rest hrest => simp [hrest] at h
      · rfl
    rw [absolutePath, if_neg h, hkept, String.toList_ofList]

/-- A URL is an endpoint without its trailing slashes, and the path with a slash in front. -/
theorem toList_joinUrl (endpoint path : String) :
    (joinUrl endpoint path).toList = trimSlashes endpoint.toList ++ (absolutePath path).toList := by
  rw [joinUrl, String.toList_ofList, cons_dropSlash]

end ClusterClient
