/-!
# Header fields

A list of fields in the order in which they were added. Names are kept in lower case, so that
equal names are equal texts; a name may occur more than once.
-/

namespace ClusterClient

/-- Header fields: names in lower case, and values. -/
abbrev Headers := List (String × String)

theorem toLower_eq (name : String) :
    name.toLower = String.ofList (name.toList.map Char.toLower) := by
  have hmap : name.toLower = name.map Char.toLower := rfl
  rw [hmap, ← String.toList_inj]
  simp

namespace Headers

def add (name value : String) (hs : Headers) : Headers :=
  hs ++ [(name.toLower, value)]

/-- The fields with one value for a name in the place of all its values. -/
def set (name value : String) (hs : Headers) : Headers :=
  hs.filter (fun h => h.1 != name.toLower) ++ [(name.toLower, value)]

/-- The fields that callers list, in their order. -/
def ofList (fields : List (String × String)) : Headers :=
  fields.map fun h => (h.1.toLower, h.2)

def values (name : String) (hs : Headers) : List String :=
  (hs.filter fun h => h.1 == name.toLower).map Prod.snd

/-- The fields by ascending name; the values of one name keep their order. -/
def sorted (hs : Headers) : Headers :=
  hs.mergeSort fun a b => !decide (b.1 < a.1)

/-! ## What setting a name does -/

/-- After a header is set, what is there is the new entry and all entries of other names. -/
theorem mem_set {h : String × String} {name value : String} {hs : Headers} :
    h ∈ hs.set name value ↔ h ∈ hs ∧ h.1 ≠ name.toLower ∨ h = (name.toLower, value) := by
  simp [set]

/-- A header that is set has the one value, whatever it had before. -/
theorem values_set_self (name value : String) (hs : Headers) :
    (hs.set name value).values name = [value] := by
  simp [set, values, List.filter_append, List.filter_filter]

/-- Setting a header leaves the values of every other name, in either case, as they are. -/
theorem values_set_of_ne {name other : String} (h : other.toLower ≠ name.toLower) (value : String)
    (hs : Headers) : (hs.set name value).values other = hs.values other := by
  have hkept : ∀ f : String × String,
      (f.1 == other.toLower && f.1 != name.toLower) = (f.1 == other.toLower) := by
    intro f
    by_cases hf : f.1 = other.toLower
    · simp [hf, h]
    · simp [hf]
  simp [set, values, List.filter_append, List.filter_filter, hkept, Ne.symm h]

/-- The values of a name are those that the caller listed under it, in whatever letter case. -/
theorem values_ofList (name : String) (fields : List (String × String)) :
    (ofList fields).values name =
      (fields.filter fun f => f.1.toLower == name.toLower).map Prod.snd := by
  simp [ofList, values, List.filter_map, Function.comp_def]

end Headers

end ClusterClient
