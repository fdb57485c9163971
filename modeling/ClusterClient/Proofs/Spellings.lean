import Mathlib.Data.List.DropRight
import ClusterClient.Routing.Roster

/-!
# How one URL may be spelled

A path is given the slash that it lacks when the request is made, and loses one when it is joined to
an endpoint; the endpoint loses all the slashes at its end. The two agree on what a slash in front
of a path means, so the path of a request leads where the caller's path would lead.

```text
http://a//  +  v1/x    =  http://a/v1/x
http://a    +  /v1/x   =  http://a/v1/x
http://a    +  //v1/x  =  http://a//v1/x
```

## The architecture

* **`Trailed`**, **`Led`**: a text as a base with slashes behind it, and as a rest with slashes in
  front. Every text is both.
* **`Led.absolute`**, **`Trailed.joinUrl_eq`**: what the path of a request and its URL are made of.
* **`Trailed.joinUrl_eq_iff`**, **`Led.absolutePath_eq_iff`**: all endpoints that make one URL with
  a path, and all paths that make one at an endpoint.
-/

namespace ClusterClient

def slashes (n : Nat) : String :=
  String.ofList (List.replicate n '/')

/-- A text is a base with so many slashes behind it, and the base ends in none. -/
structure Trailed (text base : String) (n : Nat) : Prop where
  eq : text = base ++ slashes n
  bare : base.toList.getLast? ≠ some '/'

/-- A text is a rest with so many slashes in front, and the rest begins with none. -/
structure Led (text rest : String) (n : Nat) : Prop where
  eq : text = slashes n ++ rest
  bare : rest.toList.head? ≠ some '/'

@[simp] theorem toList_slashes (n : Nat) : (slashes n).toList = List.replicate n '/' :=
  String.toList_ofList

@[simp] theorem slashes_zero_append (text : String) : slashes 0 ++ text = text :=
  String.empty_append

/-- A run of slashes is known by its length. -/
theorem ofList_eq_slashes {cs : List Char} (h : ∀ c ∈ cs, (c == '/') = true) :
    String.ofList cs = slashes cs.length := by
  rw [slashes, ← List.eq_replicate_of_mem fun c hc => eq_of_beq (h c hc)]

/-! ## Slashes behind an endpoint -/

/-- Trimming is dropping from the end while there are slashes. -/
theorem trimSlashes_eq_rdropWhile (cs : List Char) : trimSlashes cs = cs.rdropWhile (· == '/') :=
  rfl

/-- A text is trimmed exactly if its last character is no slash. -/
theorem trimSlashes_eq_self_iff {cs : List Char} :
    trimSlashes cs = cs ↔ cs.getLast? ≠ some '/' := by
  rw [trimSlashes_eq_rdropWhile, List.rdropWhile_eq_self_iff]
  cases cs using List.reverseRecOn with
  | nil => simp
  | append_singleton cs c => simp

/-- Slashes at the end make no difference to a trimmed text, however many. -/
theorem trimSlashes_append_replicate (cs : List Char) (n : Nat) :
    trimSlashes (cs ++ List.replicate n '/') = trimSlashes cs := by
  induction n with
  | zero => simp
  | succ n ih =>
    rw [List.replicate_succ', ← List.append_assoc, trimSlashes_eq_rdropWhile,
      List.rdropWhile_concat_pos _ _ _ rfl]
    exact ih

/-- Every text is a bare one with some slashes behind it. -/
theorem exists_trailed (text : String) : ∃ base n, Trailed text base n := by
  refine ⟨String.ofList (trimSlashes text.toList), (text.toList.rtakeWhile (· == '/')).length,
    ?_, ?_⟩
  · rw [← ofList_eq_slashes fun c => List.mem_rtakeWhile_imp, trimSlashes_eq_rdropWhile,
      ← String.ofList_append, List.rdropWhile_append_rtakeWhile, String.ofList_toList]
  · rw [String.toList_ofList, ← trimSlashes_eq_self_iff, trimSlashes_eq_rdropWhile]
    exact List.rdropWhile_idempotent _ _

namespace Trailed

variable {endpoint base : String} {n : Nat}

/-- What is left when the slashes are trimmed. -/
theorem trimSlashes_eq (h : Trailed endpoint base n) :
    trimSlashes endpoint.toList = base.toList := by
  rw [h.eq, String.toList_append, toList_slashes, trimSlashes_append_replicate]
  exact trimSlashes_eq_self_iff.mpr h.bare

/-- A joined URL has none of the endpoint's slashes. -/
theorem joinUrl_eq (h : Trailed endpoint base n) (path : String) :
    joinUrl endpoint path = base ++ absolutePath path := by
  rw [← String.toList_inj, toList_joinUrl, h.trimSlashes_eq, String.toList_append]

/-- **The endpoints that make one URL with a path** differ in the slashes at their ends. -/
theorem joinUrl_eq_iff (h : Trailed endpoint base n) {path other : String} :
    joinUrl other path = joinUrl endpoint path ↔ ∃ m, other = base ++ slashes m := by
  obtain ⟨base', k, hother⟩ := exists_trailed other
  constructor
  · intro hsame
    rw [hother.joinUrl_eq, h.joinUrl_eq, String.append_left_inj] at hsame
    exact ⟨k, hsame ▸ hother.eq⟩
  · rintro ⟨m, rfl⟩
    have hm : Trailed (base ++ slashes m) base m := ⟨rfl, h.bare⟩
    rw [hm.joinUrl_eq, h.joinUrl_eq]

end Trailed

/-! ## Slashes in front of a path -/

/-- Every text is a bare one with some slashes in front of it. -/
theorem exists_led (text : String) : ∃ rest n, Led text rest n := by
  refine ⟨String.ofList (text.toList.dropWhile (· == '/')),
    (text.toList.takeWhile (· == '/')).length, ?_, ?_⟩
  · rw [← ofList_eq_slashes fun c => List.mem_takeWhile_imp, ← String.ofList_append,
      List.takeWhile_append_dropWhile, String.ofList_toList]
  · intro hhead
    have hnot := List.head?_dropWhile_not (· == '/') text.toList
    rw [String.toList_ofList] at hhead
    simp [hhead] at hnot

namespace Led

variable {path rest : String} {n : Nat}

/-- Dropping the slashes in front leaves the bare text. -/
theorem dropWhile_eq (h : Led path rest n) : path.toList.dropWhile (· == '/') = rest.toList := by
  have hslashes : ∀ c ∈ List.replicate n '/', (c == '/') = true := by simp
  have hbare := h.bare
  rw [h.eq, String.toList_append, toList_slashes, List.dropWhile_append_of_pos hslashes]
  cases hrest : rest.toList with
  | nil => rfl
  | cons c cs => exact List.dropWhile_cons_of_neg (by simpa [hrest] using hbare)

/-- **A text has one number of slashes in front, and one rest.** -/
theorem unique {rest' : String} {n' : Nat} (h : Led path rest n) (h' : Led path rest' n') :
    n = n' ∧ rest = rest' := by
  have hrest : rest = rest' := by
    rw [← String.toList_inj, ← h.dropWhile_eq, h'.dropWhile_eq]
  have hsame : slashes n ++ rest = slashes n' ++ rest := by
    rw [← h.eq, hrest, ← h'.eq]
  have hslashes := congrArg String.toList ((String.append_left_inj _).mp hsame)
  rw [toList_slashes, toList_slashes] at hslashes
  exact ⟨by simpa using congrArg List.length hslashes, hrest⟩

/-- **A path with slashes in front keeps them all, and any other is given one.** -/
theorem absolute (h : Led path rest n) : Led (absolutePath path) rest (max 1 n) := by
  refine ⟨?_, h.bare⟩
  cases n with
  | zero =>
    have hpath : path = rest := by rw [h.eq, slashes_zero_append]
    rw [hpath, absolutePath_of_no_slash h.bare]
    rfl
  | succ n =>
    have hslash : path.toList.head? = some '/' := by
      rw [h.eq, String.toList_append, toList_slashes]
      rfl
    rw [absolutePath_of_slash hslash, Nat.max_eq_right (Nat.succ_pos n)]
    exact h.eq

/-- **The paths that become one.** One slash in front and none make the same path; any other number
of slashes makes a path of its own. -/
theorem absolutePath_eq_iff (h : Led path rest n) {other : String} :
    absolutePath other = absolutePath path ↔
      other = slashes (max 1 n) ++ rest ∨ n ≤ 1 ∧ other = rest := by
  constructor
  · intro hsame
    obtain ⟨rest', k, hother⟩ := exists_led other
    have habsolute := hother.absolute
    rw [hsame] at habsolute
    obtain ⟨hcount, rfl⟩ := h.absolute.unique habsolute
    rcases Nat.eq_zero_or_pos k with rfl | hk
    · refine .inr ⟨by omega, ?_⟩
      rw [hother.eq, slashes_zero_append]
    · left
      rw [hother.eq, hcount, Nat.max_eq_right hk]
  · rintro (rfl | ⟨hn, rfl⟩)
    · have hslashes : Led (slashes (max 1 n) ++ rest) rest (max 1 n) := ⟨rfl, h.bare⟩
      rw [hslashes.absolute.eq, h.absolute.eq, ← Nat.max_assoc, Nat.max_self]
    · have hnone : Led other other 0 := ⟨(slashes_zero_append other).symm, h.bare⟩
      rw [hnone.absolute.eq, h.absolute.eq, Nat.max_eq_left hn]
      rfl

end Led

/-! ## Paths and their URLs -/

/-- The URL is the same whether a path has been given its slash before or not. -/
theorem joinUrl_absolutePath (endpoint path : String) :
    joinUrl endpoint (absolutePath path) = joinUrl endpoint path := by
  rw [← String.toList_inj, toList_joinUrl, toList_joinUrl,
    absolutePath_of_slash (head?_absolutePath path)]

/-- At one endpoint a URL has one path. -/
theorem joinUrl_right_inj (endpoint : String) {path path' : String} :
    joinUrl endpoint path = joinUrl endpoint path' ↔ absolutePath path = absolutePath path' := by
  rw [← String.toList_inj, toList_joinUrl, toList_joinUrl, List.append_cancel_left_eq,
    String.toList_inj]

/-- **The spellings of a URL.** The URL of a path is the endpoint without the slashes at its end,
and the path with a slash in front, whether that has been put there before or not. It is the same at
those endpoints that differ in the slashes at their ends, and for those paths that differ in whether
they begin with one slash or with none. So two requests have one URL at an endpoint exactly if
they have one path. -/
theorem url_spellings (endpoint : String) :
    ∃ base n, Trailed endpoint base n ∧
      (∀ path, joinUrl endpoint (absolutePath path) = joinUrl endpoint path ∧
        joinUrl endpoint path = base ++ absolutePath path ∧
        absolutePath (absolutePath path) = absolutePath path ∧
        (absolutePath path).toList.head? = some '/') ∧
      (∀ path other, joinUrl other path = joinUrl endpoint path ↔
        ∃ m, other = base ++ slashes m) ∧
      (∀ path, ∃ rest k, Led path rest k ∧ absolutePath path = slashes (max 1 k) ++ rest ∧
        ∀ other, joinUrl endpoint other = joinUrl endpoint path ↔
          other = slashes (max 1 k) ++ rest ∨ k ≤ 1 ∧ other = rest) ∧
      (∀ path path', joinUrl endpoint path = joinUrl endpoint path' ↔
        absolutePath path = absolutePath path') ∧
      ∀ (r : Roster) (d d' : Draft),
        joinUrl endpoint (r.request d).path = joinUrl endpoint (r.request d').path ↔
          (r.request d).path = (r.request d').path := by
  obtain ⟨base, n, htrailed⟩ := exists_trailed endpoint
  refine ⟨base, n, htrailed, fun path => ?_, fun path other => htrailed.joinUrl_eq_iff,
    fun path => ?_, fun path path' => joinUrl_right_inj endpoint, fun r d d' => ?_⟩
  · -- a path with its slash has it once and for all
    have hslash := head?_absolutePath path
    exact ⟨joinUrl_absolutePath endpoint path, htrailed.joinUrl_eq path,
      absolutePath_of_slash hslash, hslash⟩
  · obtain ⟨rest, k, hled⟩ := exists_led path
    refine ⟨rest, k, hled, hled.absolute.eq, fun other => ?_⟩
    rw [joinUrl_right_inj, hled.absolutePath_eq_iff]
  · show joinUrl endpoint (absolutePath d.path) = joinUrl endpoint (absolutePath d'.path) ↔ _
    rw [joinUrl_absolutePath, joinUrl_absolutePath, joinUrl_right_inj]
    rfl

/-- An endpoint of slashes only is trimmed to nothing, and an empty path is a slash. -/
example : joinUrl "///" "" = "/" ∧ joinUrl "http://a//" "v1/x" = "http://a/v1/x" ∧
    joinUrl "http://a" "//v1/x" = "http://a//v1/x" := by
  decide +kernel

end ClusterClient
