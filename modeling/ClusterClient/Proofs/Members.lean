import ClusterClient.Json.Value

/-!
# The members of an object

An object is what its names stand for: of members with one name the last one counts, and in which
order the names come makes no difference.

* **`Last`**: the last member of a name.
* **`get?_eq_some_iff`**: it is the one that is found.
* **`Ascending`**: the order in which an object keeps its members, and the one list for a look-up
  (`Ascending.ext`).
* **`ofMembers_eq_iff`**: two lists of members make one object exactly if they agree on the last
  member of every name.
-/

namespace ClusterClient.Json

/-- The last member of a name has this value. -/
def Last (ms : List (String × Value)) (name : String) (v : Value) : Prop :=
  ∃ before after, ms = before ++ (name, v) :: after ∧ ∀ m ∈ after, m.1 ≠ name

/-- Looking up from the end finds the last member of a name. -/
theorem lookup_reverse_eq_some_iff {ms : List (String × Value)} {name : String} {v : Value} :
    ms.reverse.lookup name = some v ↔ Last ms name v := by
  rw [List.lookup_eq_some_iff]
  unfold Last
  constructor
  · rintro ⟨after, before, heq, hafter⟩
    refine ⟨before.reverse, after.reverse, ?_, fun m hm => ?_⟩
    · simpa using congrArg List.reverse heq
    · exact (bne_iff_ne.mp (hafter m (List.mem_reverse.mp hm))).symm
  · rintro ⟨before, after, rfl, hafter⟩
    refine ⟨after.reverse, before.reverse, by simp, fun m hm => ?_⟩
    exact bne_iff_ne.mpr (hafter m (List.mem_reverse.mp hm)).symm

/-! ## The order of members -/

/-- The names ascend, so that no name comes twice. -/
def Ascending (ms : List (String × Value)) : Prop :=
  ms.Pairwise fun m m' => m.1 < m'.1

/-- Names are ordered totally. -/
theorem lt_of_not_lt {s t : String} (h : ¬ s < t) (hne : s ≠ t) : t < s := by
  rcases String.le_total s t with hle | hle
  · exact absurd (String.le_antisymm hle (String.not_lt.mp h)) hne
  · refine Classical.byContradiction fun hlt => ?_
    exact hne (String.le_antisymm (String.not_lt.mp hlt) hle)

/-- Inserting a member brings nothing else in. -/
theorem mem_insertMember {name : String} {v : Value} {ms : List (String × Value)}
    {m : String × Value} (h : m ∈ insertMember name v ms) : m = (name, v) ∨ m ∈ ms := by
  induction ms with
  | nil => exact .inl (List.mem_singleton.mp h)
  | cons first ms ih =>
    unfold insertMember at h
    split at h
    · exact List.mem_cons.mp h
    · split at h
      · exact (List.mem_cons.mp h).imp_right (List.mem_cons_of_mem _)
      · rcases List.mem_cons.mp h with rfl | h
        · exact .inr List.mem_cons_self
        · exact (ih h).imp_right (List.mem_cons_of_mem _)

/-- Members that are in order stay so when one is inserted. -/
theorem Ascending.insertMember {ms : List (String × Value)} (h : Ascending ms) (name : String)
    (v : Value) : Ascending (insertMember name v ms) := by
  induction ms with
  | nil => simp [Ascending, Json.insertMember]
  | cons m ms ih =>
    obtain ⟨hm, hms⟩ := List.pairwise_cons.mp h
    unfold Json.insertMember
    split
    · next hlt =>
      refine List.pairwise_cons.mpr ⟨List.forall_mem_cons.mpr ⟨hlt, fun m' hm' => ?_⟩, h⟩
      exact String.lt_trans hlt (hm m' hm')
    · next hnlt =>
      split
      · next heq =>
        subst heq
        exact List.pairwise_cons.mpr ⟨hm, hms⟩
      · next hne =>
        refine List.pairwise_cons.mpr ⟨fun m' hm' => ?_, ih hms⟩
        -- a later member is the one that was set, or was there before
        rcases mem_insertMember hm' with rfl | hm'
        · exact lt_of_not_lt hnlt hne
        · exact hm m' hm'

/-- Members in order have no name up to that of the first one after it. -/
theorem Ascending.lookup_eq_none {m : String × Value} {ms : List (String × Value)}
    (h : Ascending (m :: ms)) {name : String} (hname : name ≤ m.1) : ms.lookup name = none := by
  rw [List.lookup_eq_none_iff]
  intro m' hm'
  have hlt : m.1 < m'.1 := (List.pairwise_cons.mp h).1 m' hm'
  simp only [bne_iff_ne, ne_eq]
  rintro rfl
  exact String.not_lt.mpr hname hlt

/-- **An ascending list is its look-up.** -/
theorem Ascending.ext {ms ms' : List (String × Value)} (h : Ascending ms) (h' : Ascending ms')
    (hlookup : ∀ name, ms.lookup name = ms'.lookup name) : ms = ms' := by
  induction ms generalizing ms' with
  | nil =>
    match ms' with
    | [] => rfl
    | (k, v) :: ms' =>
      have hk := hlookup k
      rw [List.lookup_cons_self] at hk
      cases hk
  | cons m ms ih =>
    obtain ⟨k, v⟩ := m
    match ms' with
    | [] =>
      have hk := hlookup k
      rw [List.lookup_cons_self] at hk
      cases hk
    | (k', v') :: ms' =>
      have hk := hlookup k
      have hk' := hlookup k'
      rw [List.lookup_cons_self] at hk hk'
      -- the lesser of two first names would be missing from the other list
      have hname : k = k' := by
        rcases String.le_total k k' with hle | hle
        · refine Classical.byContradiction fun hne => ?_
          rw [List.lookup_cons, beq_eq_false_iff_ne.mpr hne] at hk
          exact absurd (hk.trans (h'.lookup_eq_none hle)) nofun
        · refine Classical.byContradiction fun hne => ?_
          rw [List.lookup_cons, beq_eq_false_iff_ne.mpr (Ne.symm hne)] at hk'
          exact absurd (hk'.symm.trans (h.lookup_eq_none hle)) nofun
      subst hname
      rw [List.lookup_cons_self] at hk
      obtain rfl := Option.some.inj hk
      congr 1
      refine ih (List.pairwise_cons.mp h).2 (List.pairwise_cons.mp h').2 fun name => ?_
      by_cases heq : name = k
      · subst heq
        rw [h.lookup_eq_none (String.le_refl name), h'.lookup_eq_none (String.le_refl name)]
      · have hrest := hlookup name
        rwa [List.lookup_cons, List.lookup_cons, beq_eq_false_iff_ne.mpr heq] at hrest

namespace Value

/-- The members of an object are in order, whatever the order of the text. -/
theorem ascending_ofMembers (ms : List (String × Value)) :
    ∃ fields, ofMembers ms = .object fields ∧ Ascending fields := by
  have hfold : ∀ (ms done : List (String × Value)), Ascending done →
      Ascending (ms.foldl (fun done m => insertMember m.1 m.2 done) done) := by
    intro ms
    induction ms with
    | nil => exact fun _ h => h
    | cons m ms ih => exact fun done h => ih _ (h.insertMember m.1 m.2)
  exact ⟨_, rfl, hfold ms [] List.Pairwise.nil⟩

/-- **What an object has under a name** is its last member of that name. -/
theorem get?_eq_some_iff {ms : List (String × Value)} {name : String} {v : Value} :
    (ofMembers ms).get? name = some v ↔ Last ms name v := by
  rw [get?_ofMembers, lookup_reverse_eq_some_iff]

/-- **An object is the last members of its names.** -/
theorem ofMembers_eq_iff {ms ms' : List (String × Value)} :
    ofMembers ms = ofMembers ms' ↔ ∀ name v, Last ms name v ↔ Last ms' name v := by
  constructor
  · intro h name v
    rw [← get?_eq_some_iff, h, get?_eq_some_iff]
  · intro h
    obtain ⟨fields, hfields, hascending⟩ := ascending_ofMembers ms
    obtain ⟨fields', hfields', hascending'⟩ := ascending_ofMembers ms'
    have hget : ∀ name, (ofMembers ms).get? name = (ofMembers ms').get? name := by
      intro name
      refine Option.ext fun v => ?_
      rw [get?_eq_some_iff, get?_eq_some_iff, h]
    rw [hfields, hfields'] at hget ⊢
    rw [hascending.ext hascending' hget]

end Value

end ClusterClient.Json
