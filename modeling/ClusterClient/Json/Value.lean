import ClusterClient.Numeric.Binary

/-!
# JSON values

What a JSON text denotes. The members of an object are kept in ascending order of their names,
each name once, so that equal objects are equal values whatever their texts.

* `Number`: an integer of 64 bits with or without sign, or a double;
* `Value`: the values, with `Value.get?` and the views as text and as natural number;
* `Value.ofMembers`: the object of a list of members, of which the last of a name counts.
-/

namespace ClusterClient.Json

/-- A number, by the way it was written. -/
inductive Number where
  | integer (i : Int)
  | real (x : Binary64)
  deriving DecidableEq, Repr

/-- A JSON value. -/
inductive Value where
  | null
  | bool (b : Bool)
  | number (n : Number)
  | string (s : String)
  | array (items : List Value)
  | object (members : List (String × Value))

/-- Sets a member in an ascending list of members. -/
def insertMember (name : String) (v : Value) : List (String × Value) → List (String × Value)
  | [] => [(name, v)]
  | m :: ms =>
    if name < m.1 then (name, v) :: m :: ms
    else if name = m.1 then (name, v) :: ms
    else m :: insertMember name v ms

namespace Value

/-- The object of a list of members, of which the last of a name counts. -/
def ofMembers (ms : List (String × Value)) : Value :=
  .object (ms.foldl (fun done m => insertMember m.1 m.2 done) [])

/-- The object that has the members that are present. -/
def ofPresent (ms : List (String × Option Value)) : Value :=
  ofMembers (ms.filterMap fun m => m.2.map (m.1, ·))

/-- A member of an object; no other value has one. -/
def get? (v : Value) (name : String) : Option Value :=
  match v with
  | .object ms => ms.lookup name
  | _ => none

def text? : Value → Option String
  | .string s => some s
  | _ => none

/-- The number of an integer value that is not negative. -/
def natural? : Value → Option Nat
  | .number (.integer i) => if 0 ≤ i then some i.toNat else none
  | _ => none

def textOf? (v : Value) (name : String) : Option String :=
  (v.get? name).bind text?

def ofNat (n : Nat) : Value :=
  .number (.integer n)

/-- A single precision number as a value: the double of the same worth, or null if there is no
finite one. -/
def ofSingle (x : Binary32) : Value :=
  if x.isFinite then .number (.real (x.convert .double)) else .null

end Value

/-- A member that was set is found under its name. -/
theorem lookup_insertMember_self (name : String) (v : Value) (ms : List (String × Value)) :
    (insertMember name v ms).lookup name = some v := by
  induction ms with
  | nil => simp [insertMember]
  | cons m ms ih =>
    obtain ⟨k, w⟩ := m
    simp only [insertMember]
    split
    · simp
    · split
      · simp
      · next hne => simpa [List.lookup_cons, beq_eq_false_iff_ne.2 hne] using ih

/-- Setting a member leaves the others alone. -/
theorem lookup_insertMember_of_ne {name other : String} (h : other ≠ name) (v : Value)
    (ms : List (String × Value)) :
    (insertMember name v ms).lookup other = ms.lookup other := by
  induction ms with
  | nil => simp [insertMember, List.lookup_cons, beq_eq_false_iff_ne.2 h]
  | cons m ms ih =>
    obtain ⟨k, w⟩ := m
    simp only [insertMember]
    split
    · simp [List.lookup_cons, beq_eq_false_iff_ne.2 h]
    · split
      · next heq =>
        have hk : other ≠ k := heq ▸ h
        simp [List.lookup_cons, beq_eq_false_iff_ne.2 h, beq_eq_false_iff_ne.2 hk]
      · by_cases hk : other = k
        · simp [hk]
        · simpa [List.lookup_cons, beq_eq_false_iff_ne.2 hk] using ih

namespace Value

/-- Members that are inserted one by one: the last one of a name counts, and what was there before
counts for names that do not come again. -/
theorem lookup_foldl_insertMember (name : String) (ms done : List (String × Value)) :
    (ms.foldl (fun done m => insertMember m.1 m.2 done) done).lookup name =
      (ms.reverse.lookup name).or (done.lookup name) := by
  induction ms generalizing done with
  | nil => simp
  | cons m ms ih =>
    obtain ⟨k, v⟩ := m
    rw [List.foldl_cons, ih, List.reverse_cons, List.lookup_append, Option.or_assoc]
    congr 1
    by_cases h : name = k
    · subst h
      simp [lookup_insertMember_self]
    · simp [lookup_insertMember_of_ne h, List.lookup_cons, beq_eq_false_iff_ne.2 h]

/-- Of members with the same name an object keeps the last one. -/
theorem get?_ofMembers (name : String) (ms : List (String × Value)) :
    (ofMembers ms).get? name = ms.reverse.lookup name := by
  have h := lookup_foldl_insertMember name ms []
  rw [List.lookup_nil, Option.or_none] at h
  exact h

/-- A member that is present is found if no later one has its name. -/
theorem get?_ofPresent_cons {name : String} {v : Value} {ms : List (String × Option Value)}
    (h : ∀ m ∈ ms, m.1 ≠ name) : (ofPresent ((name, some v) :: ms)).get? name = some v := by
  have hnone : (ms.filterMap fun m => m.2.map (m.1, ·)).reverse.lookup name = none := by
    rw [List.lookup_eq_none_iff]
    intro m hm
    rw [List.mem_reverse, List.mem_filterMap] at hm
    obtain ⟨m', hm', heq⟩ := hm
    obtain ⟨v', -, rfl⟩ := Option.map_eq_some_iff.mp heq
    simpa using (h m' hm').symm
  have hcons : ((name, some v) :: ms).filterMap (fun m => m.2.map (m.1, ·)) =
      (name, v) :: ms.filterMap fun m => m.2.map (m.1, ·) := rfl
  rw [ofPresent, get?_ofMembers, hcons, List.reverse_cons, List.lookup_append, hnone]
  simp

end Value

end ClusterClient.Json
