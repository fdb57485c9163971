import Mathlib.Data.List.Sort
import ClusterClient.Json.Record
import ClusterClient.Proofs.Singles
import ClusterClient.Proofs.Writing

/-!
# Records, written and read

A record is written as the object of the members that are present, in the order of their names, and
read member by member, whatever the order of its fields. What is read is what each present member
does to the blank record.

## The architecture

* **`Decodes`**: a decoder makes one thing of every tree of a value; a lemma for each basic type.
* **`ofPresent_eq`**: the object of the members that are present, by the sorted list.
* **`Component`**, **`Component.Reads`**: a member that may be absent, with what reading it does.
* **`readMembers_components`**: reading the members, by induction on the components.
* **`decode_ofPresent`**: the whole body.
* **`Record.Keeps`**, **`Record.decoder_invariant`**: what every field keeps holds of all that is
  read.
-/

namespace ClusterClient.Json

open Decoder

/-! ## Basic types -/

section

variable {α : Type}

/-- A decoder makes this of every tree of a value, whatever room is left. -/
def Decodes (d : Decoder α) (v : Value) (a : α) : Prop :=
  ∀ room t, Spells t v → d room t = .ok a

/-- A scalar with a value is read as that value is. -/
theorem decodes_scalar {expected : String} {read : Value → Option (Except Problem α)}
    {s : Scalar} {v : Value} {a : α} (hs : s.value = .ok v) (hread : read v = some (.ok a))
    (room : Nat) : ofScalar expected read room (.scalar s) = .ok a := by
  unfold ofScalar
  dsimp only
  rw [hs]
  dsimp only
  rw [hread]
  rfl

theorem value_string {ps : List Piece} {s : String} (h : textOfPieces? ps = some s) :
    (Scalar.string ps).value = .ok (.string s) := by
  rw [Scalar.value]
  simp only [h]

theorem value_number {n : Numeral} {x : Number} (h : n.number? = some x) :
    (Scalar.number n).value = .ok (.number x) := by
  rw [Scalar.value]
  simp only [h]

/-- A text is read as whatever its reader makes of it. -/
theorem decodes_text {expected : String} {read : List Char → Except Cause α} {s : String} {a : α}
    (hread : read s.toList = .ok a) : Decodes (ofText expected read) (.string s) a := by
  intro room t ht
  cases ht with
  | string text =>
    refine decodes_scalar (value_string text) ?_ room
    dsimp only
    rw [hread]
    rfl

/-- Every text is read back. -/
theorem decodes_string (s : String) : Decodes ofString (.string s) s := by
  intro room t ht
  cases ht with
  | string text => exact decodes_scalar (value_string text) rfl room

/-- An identifier is read from every text that writes it. -/
theorem decodes_uuid {s : String} {u : Uuid} (h : Uuid.read? s.toList = some u) :
    Decodes ofUuid (.string s) u :=
  decodes_text (by rw [h])

theorem decodes_bool (b : Bool) : Decodes ofBool (.bool b) b := by
  intro room t ht
  cases ht with
  | bool => rfl

/-- A natural number that fits is read back. -/
theorem decodes_nat (name : String) {bits n : Nat} (hn : n < 2 ^ bits) (hbits : bits ≤ 64) :
    Decodes (ofNat name bits) (.ofNat n) n := by
  intro room t ht
  have hmost : (n : Int) < 2 ^ 64 := by
    have hle : 2 ^ bits ≤ 2 ^ 64 := Nat.pow_le_pow_right (by decide) hbits
    exact_mod_cast lt_of_lt_of_le hn hle
  cases ht with
  | number text =>
    obtain rfl := numeral_unique text (numeralText_integer n)
    refine decodes_scalar (value_number (number?_integer (by omega) hmost)) ?_ room
    dsimp only
    rw [if_pos ⟨Int.natCast_nonneg n, by rw [Nat.pow_eq]; exact_mod_cast hn⟩]
    rfl

theorem decodes_uint8 (n : UInt8) : Decodes ofUInt8 (.ofNat n.toNat) n := by
  intro room t ht
  have hread := decodes_nat "u8" n.toNat_lt (by decide) room t ht
  unfold ofUInt8
  rw [hread]
  exact congrArg _ (UInt8.ofNat_toNat)

theorem decodes_uint64 (name : String) (n : UInt64) :
    Decodes (ofUInt64 name) (.ofNat n.toNat) n := by
  intro room t ht
  have hread := decodes_nat name n.toNat_lt (by decide) room t ht
  unfold ofUInt64
  rw [hread]
  exact congrArg _ (UInt64.ofNat_toNat)

/-- **A finite number of single precision comes back.** -/
theorem decodes_single {x : Binary32} (hx : x.isFinite = true) :
    Decodes ofSingle (.ofSingle x) x := by
  intro room t ht
  rw [Value.ofSingle, if_pos hx] at ht
  cases ht with
  | number text =>
    obtain ⟨n, y, hn, hnumber, hy⟩ := exists_number_of_single hx
    obtain rfl := numeral_unique text hn
    refine decodes_scalar (value_number hnumber) ?_ room
    dsimp only
    rw [hy]

theorem decodes_null {d : Decoder α} : Decodes d.optional .null none := by
  intro room t ht
  cases ht with
  | null => rfl

/-- Anything but null is read as something. -/
theorem Decodes.optional {d : Decoder α} {v : Value} {a : α} (h : Decodes d v a)
    (hv : v ≠ .null) : Decodes d.optional v (some a) := by
  intro room t ht
  have hread := h room t ht
  have hother : t ≠ .scalar .null := by
    rintro rfl
    cases ht
    exact hv rfl
  unfold Decoder.optional
  split
  · exact absurd rfl hother
  · rw [hread]
    rfl

/-- **A number that is not finite is written as null, and lost**; any other comes back. -/
theorem decodes_optional_single (x : Binary32) :
    Decodes ofSingle.optional (.ofSingle x) ((some x).filter Binary.isFinite) := by
  cases hx : x.isFinite with
  | true =>
    have hfilter : (some x).filter Binary.isFinite = some x := by simp [hx]
    have hne : Value.ofSingle x ≠ .null := by simp [Value.ofSingle, hx]
    rw [hfilter]
    exact (decodes_single hx).optional hne
  | false =>
    have hfilter : (some x).filter Binary.isFinite = none := by simp [hx]
    have hnull : Value.ofSingle x = .null := by simp [Value.ofSingle, hx]
    rw [hfilter, hnull]
    exact decodes_null

end

/-! ## The members that are present -/

/-- The order of members that may be absent, by their names. -/
abbrev nameLe (m m' : String × Option Value) : Prop :=
  m.1 ≤ m'.1

def present (ms : List (String × Option Value)) : List (String × Value) :=
  ms.filterMap fun m => m.2.map (m.1, ·)

/-- A member is present if it has a value. -/
theorem mem_present {ms : List (String × Option Value)} {name : String} {v : Value} :
    (name, v) ∈ present ms ↔ (name, some v) ∈ ms := by
  unfold present
  rw [List.mem_filterMap]
  constructor
  · rintro ⟨⟨k, o⟩, hm, heq⟩
    obtain ⟨w, rfl, hw⟩ := Option.map_eq_some_iff.mp heq
    cases hw
    exact hm
  · exact fun h => ⟨_, h, rfl⟩

/-- Under distinct names, what is found under a name is what is listed with it. -/
theorem lookup_eq_some_iff_mem {β : Type} {ms : List (String × β)} (h : (ms.map Prod.fst).Nodup)
    {name : String} {v : β} : ms.lookup name = some v ↔ (name, v) ∈ ms := by
  induction ms with
  | nil => simp
  | cons m ms ih =>
    obtain ⟨k, w⟩ := m
    obtain ⟨hk, hms⟩ := List.nodup_cons.mp h
    rw [List.lookup_cons, List.mem_cons]
    by_cases hname : name = k
    · subst hname
      have hnone : (name, v) ∉ ms := fun hmem => hk (List.mem_map.mpr ⟨_, hmem, rfl⟩)
      simp [hnone, eq_comm]
    · rw [beq_eq_false_iff_ne.mpr hname]
      dsimp only
      rw [ih hms]
      simp [hname]

/-- Members of different names stay so when the absent ones are left out. -/
theorem nodup_present {ms : List (String × Option Value)} (h : (ms.map Prod.fst).Nodup) :
    ((present ms).map Prod.fst).Nodup := by
  refine h.sublist ?_
  induction ms with
  | nil => exact List.nil_sublist _
  | cons m ms ih =>
    obtain ⟨k, o⟩ := m
    cases o with
    | none => exact (ih (List.nodup_cons.mp h).2).cons _
    | some v => exact (ih (List.nodup_cons.mp h).2).cons_cons _

instance : Std.Total nameLe :=
  ⟨fun m m' => String.le_total m.1 m'.1⟩

instance : IsTrans (String × Option Value) nameLe :=
  ⟨fun _ _ _ => String.le_trans⟩

/-- Members in order stay so when the absent ones are left out. -/
theorem ascending_present {ms : List (String × Option Value)} (hsorted : ms.Pairwise nameLe)
    (hnodup : (ms.map Prod.fst).Nodup) : Ascending (present ms) := by
  have hstrict : ms.Pairwise fun m m' => m.1 < m'.1 := by
    refine (hsorted.and (List.pairwise_map.mp hnodup)).imp fun h => ?_
    exact lt_of_not_lt (String.not_lt.mpr h.1) (Ne.symm h.2)
  refine List.Pairwise.filterMap _ (fun m m' hlt n hn n' hn' => ?_) hstrict
  obtain ⟨v, -, rfl⟩ := Option.map_eq_some_iff.mp hn
  obtain ⟨v', -, rfl⟩ := Option.map_eq_some_iff.mp hn'
  exact hlt

/-- An object of members that may be absent has exactly the present ones. -/
theorem get?_ofPresent {ms : List (String × Option Value)} (h : (ms.map Prod.fst).Nodup)
    {name : String} {v : Value} :
    (Value.ofPresent ms).get? name = some v ↔ (name, some v) ∈ ms := by
  rw [Value.ofPresent, Value.get?_eq_some_iff, ← lookup_reverse_eq_some_iff]
  show (present ms).reverse.lookup name = some v ↔ _
  rw [lookup_eq_some_iff_mem, List.mem_reverse, mem_present]
  rw [List.map_reverse, List.nodup_reverse]
  exact nodup_present h

/-- **The object of the members that are present**: under distinct names it has the members that are
listed, sorted. -/
theorem ofPresent_eq {ms : List (String × Option Value)} (h : (ms.map Prod.fst).Nodup) :
    Value.ofPresent ms = .object (present (ms.insertionSort nameLe)) := by
  have hperm := ms.perm_insertionSort nameLe
  have hnodup : ((ms.insertionSort nameLe).map Prod.fst).Nodup :=
    (hperm.map Prod.fst).nodup_iff.mpr h
  have hascending : Ascending (present (ms.insertionSort nameLe)) :=
    ascending_present (ms.pairwise_insertionSort nameLe) hnodup
  obtain ⟨fields, hfields, hfields'⟩ := Value.ascending_ofMembers (present ms)
  show Value.ofMembers (present ms) = _
  rw [hfields]
  congr 1
  refine hfields'.ext hascending fun name => Option.ext fun v => ?_
  have hget : fields.lookup name = (Value.ofPresent ms).get? name := by
    show _ = (Value.ofMembers (present ms)).get? name
    rw [hfields]
    rfl
  rw [hget, get?_ofPresent h, lookup_eq_some_iff_mem (nodup_present hnodup), mem_present,
    hperm.mem_iff]

/-! ## Reading the members -/

/-- A member that may be absent, with what it does to the record that is read. -/
structure Component (α : Type) where
  name : String
  value : Option Value
  effect : α → α

namespace Component

variable {α : Type}

def entry (p : Component α) : String × Option Value :=
  (p.name, p.value)

/-- The member is one of the record's fields: reading it has the effect, and without it nothing
happens. -/
def Reads (r : Record α) (p : Component α) : Prop :=
  ∃ f, r.field? p.name = some f ∧
    (∀ v, p.value = some v → ∀ room t, Spells t v → f.read room t = .ok p.effect) ∧
    (p.value = none → p.effect = id)

/-- A required field reads its member. -/
theorem Reads.of_needed {r : Record α} {name : String} {β : Type} {d : Decoder β}
    {set : β → α → α} (hfield : r.field? name = some (.needed name d set)) {v : Value} {b : β}
    (h : Decodes d v b) : Reads r ⟨name, some v, set b⟩ := by
  refine ⟨_, hfield, fun w hw room t ht => ?_, nofun⟩
  obtain rfl := Option.some.inj hw
  show (d room t).map set = .ok (set b)
  rw [h room t ht]
  rfl

/-- A field with a default reads its member, if that is there. -/
theorem Reads.of_defaulted {r : Record α} {name : String} {β : Type} {d : Decoder β}
    {set : β → α → α} (hfield : r.field? name = some (.defaulted name d set)) {v : Value} {b : β}
    (h : Decodes d v b) : Reads r ⟨name, some v, set b⟩ := by
  refine ⟨_, hfield, fun w hw room t ht => ?_, nofun⟩
  obtain rfl := Option.some.inj hw
  show (d room t).map set = .ok (set b)
  rw [h room t ht]
  rfl

/-- A field that is present only when it is set, and may arrive as something else. -/
theorem Reads.of_present {r : Record α} {name : String} {β γ : Type} {d : Decoder γ}
    {set : γ → α → α} (hfield : r.field? name = some (.defaulted name d set)) {o : Option β}
    {encode : β → Value} {arrive : β → γ} (h : ∀ b, o = some b → Decodes d (encode b) (arrive b)) :
    Reads r ⟨name, o.map encode, o.elim id fun b => set (arrive b)⟩ := by
  cases o with
  | none => exact ⟨_, hfield, nofun, fun _ => rfl⟩
  | some b => exact of_defaulted hfield (h b rfl)

/-- A field that may be left out or null. -/
theorem Reads.of_optional {r : Record α} {name : String} {β : Type} {d : Decoder β}
    {set : Option β → α → α} (hfield : r.field? name = some (.defaulted name d.optional set))
    {o : Option β} {encode : β → Value} (h : ∀ b, o = some b → Decodes d (encode b) b)
    (hnull : ∀ b, encode b ≠ .null) :
    Reads r ⟨name, o.map encode, o.elim id fun b => set (some b)⟩ :=
  of_present hfield fun b hb => (h b hb).optional (hnull b)

end Component

section

variable {α : Type} {r : Record α}

/-- **The members of an object are read one by one**, by induction on the components: each has its
effect, and what has been seen are the names of the present ones. -/
theorem readMembers_components (room : Nat) (components : List (Component α))
    (hreads : ∀ p ∈ components, p.Reads r) (hnodup : (components.map Component.name).Nodup)
    {ns : List (Token × Tree)} (h : SpellsMembers ns (present (components.map Component.entry)))
    (seen : List String) (hseen : ∀ p ∈ components, p.name ∉ seen) (a : α) :
    ∃ seen', (∀ name, name ∈ seen' ↔
        name ∈ seen ∨ ∃ p ∈ components, p.name = name ∧ p.value.isSome = true) ∧
      r.readMembers room seen a ns =
        r.close seen' (components.foldl (fun a p => p.effect a) a) := by
  induction components generalizing ns seen a with
  | nil =>
    cases h
    exact ⟨seen, by simp, rfl⟩
  | cons p components ih =>
    obtain ⟨hp, hrest⟩ := List.forall_mem_cons.mp hreads
    obtain ⟨hname, hnames⟩ := List.nodup_cons.mp hnodup
    obtain ⟨hfresh, hfreshs⟩ := List.forall_mem_cons.mp hseen
    obtain ⟨f, hfield, hpresent, habsent⟩ := hp
    obtain ⟨name, value, effect⟩ := p
    cases value with
    | none =>
      -- nothing is written, and the effect is none
      obtain ⟨seen', hmem, hread⟩ := ih hrest hnames h seen hfreshs a
      refine ⟨seen', fun k => ?_, ?_⟩
      · rw [hmem k]
        simp
      · rw [hread, List.foldl_cons, habsent rfl]
        rfl
    | some v =>
      cases h with
      | @cons ps t ns _ _ _ label first rest =>
        -- no later part has the name that is now seen
        have hfresh' : ∀ q ∈ components, q.name ∉ name :: seen := by
          intro q hq hmem
          rcases List.mem_cons.mp hmem with heq | hmem
          · exact hname (List.mem_map.mpr ⟨q, hq, heq⟩)
          · exact hfreshs q hq hmem
        obtain ⟨seen', hmem, hread⟩ := ih hrest hnames rest _ hfresh' (effect a)
        refine ⟨seen', fun k => ?_, ?_⟩
        · simp only [hmem k, List.mem_cons, exists_eq_or_imp, Option.isSome_some, and_true]
          rw [or_assoc, or_left_comm, eq_comm]
        · have hlabel : (Token.scalar (.string ps)).name = .ok name :=
            name_eq_ok.mpr ⟨ps, rfl, label⟩
          have hset := hpresent v rfl room t first
          dsimp only at hfield hset
          rw [List.foldl_cons, ← hread, Record.readMembers, hlabel]
          dsimp only
          rw [hfield]
          dsimp only
          rw [if_neg (by simpa using hfresh), hset]

/-- **A record is read from the members that are present.** -/
theorem decode_ofPresent {ms : List (String × Option Value)} (components : List (Component α))
    (hsorted : ms.insertionSort nameLe = components.map Component.entry)
    (hnodup : (components.map Component.name).Nodup) (hreads : ∀ p ∈ components, p.Reads r)
    (hrequired : ∀ f ∈ r.fields, f.required = true →
      ∃ p ∈ components, p.name = f.name ∧ p.value.isSome = true) :
    decode r.decoder (Value.ofPresent ms).toBytes =
      .ok (components.foldl (fun a p => p.effect a) r.blank) := by
  have hnames : (ms.map Prod.fst).Nodup := by
    rw [← ((ms.perm_insertionSort nameLe).map Prod.fst).nodup_iff, hsorted, List.map_map]
    exact hnodup
  rw [ofPresent_eq hnames, hsorted]
  obtain ⟨t, ht, hdocument⟩ := exists_document (.object (present (components.map Component.entry)))
  rw [decode_eq_ok, hdocument]
  refine ⟨?_, rfl⟩
  cases ht with
  | @object ns _ members =>
    obtain ⟨seen, hmem, hread⟩ := readMembers_components (nestingLimit - 1) components hreads
      hnodup members [] (by simp) r.blank
    show r.readMembers (nestingLimit - 1) [] r.blank ns = _
    -- no field that is required is left over when the members end
    rw [hread, Record.close, List.find?_eq_none.mpr]
    intro f hf
    cases hrequires : f.required with
    | false => simp
    | true =>
      have hseen : f.name ∈ seen := (hmem f.name).mpr (.inr (hrequired f hf hrequires))
      simpa using hseen

/-! ## What is read of any body -/

omit r in
/-- What an optional reader finds, the reader finds. -/
theorem optional_eq_some {d : Decoder α} {room : Nat} {t : Tree} {a : α}
    (h : d.optional room t = .ok (some a)) : d room t = .ok a := by
  unfold Decoder.optional at h
  split at h
  · cases h
  · obtain ⟨b, hb, heq⟩ := map_eq_ok.mp h
    obtain rfl := Option.some.inj heq
    exact hb

omit r in
theorem mapError_eq_ok {ε ε' : Type} {x : Except ε α} {f : ε → ε'} {a : α} :
    x.mapError f = .ok a ↔ x = .ok a := by
  cases x <;> simp [Except.mapError]

omit r in
/-- What is read of a text is what its reader makes of it. -/
theorem ofText_eq_ok {expected : String} {read : List Char → Except Cause α} {room : Nat} {t : Tree}
    {a : α} (h : ofText expected read room t = .ok a) : ∃ cs, read cs = .ok a := by
  obtain ⟨s, v, -, -, hread⟩ := ofScalar_eq_ok h
  split at hread
  · exact ⟨_, mapError_eq_ok.mp (Option.some.inj hread)⟩
  · cases hread

/-- A number of single precision that is read lies no further than infinity. -/
theorem ofSingle_le {room : Nat} {t : Tree} {x : Binary32} (h : ofSingle room t = .ok x) :
    x.magnitude ≤ BinaryFormat.single.infinite := by
  obtain ⟨s, v, -, -, hread⟩ := ofScalar_eq_ok h
  split at hread
  · obtain rfl := Except.ok.inj (Option.some.inj hread)
    exact Nat.min_le_right _ _
  · obtain rfl := Except.ok.inj (Option.some.inj hread)
    unfold Binary.convert
    dsimp only
    split
    · exact Nat.min_le_right _ _
    · exact le_rfl
  · cases hread

/-- Every field keeps the property, whatever it is read from. -/
def Record.Keeps (r : Record α) (holds : α → Prop) : Prop :=
  ∀ f ∈ r.fields, ∀ room t set, f.read room t = .ok set → ∀ a, holds a → holds (set a)

/-- What every field keeps, the members of an object keep. -/
theorem Record.readMembers_invariant {holds : α → Prop} (h : r.Keeps holds) {room : Nat}
    (ns : List (Token × Tree)) {seen : List String} {a b : α} (hb : holds b)
    (hread : r.readMembers room seen b ns = .ok a) : holds a := by
  induction ns generalizing seen b with
  | nil =>
    -- at the end nothing is set any more
    unfold Record.readMembers Record.close at hread
    split at hread
    · cases hread
    · exact Except.ok.inj hread ▸ hb
  | cons n ns ih =>
    obtain ⟨token, t⟩ := n
    unfold Record.readMembers at hread
    split at hread
    · cases hread
    · split at hread
      · next f hf =>
        split at hread
        · cases hread
        · split at hread
          · next set hset =>
            -- a field that is set for the first time
            exact ih (h f (List.mem_of_find?_eq_some hf) room t set hset b hb) hread
          · cases hread
      · -- a member that is no field is only skipped
        split at hread
        · exact ih hb hread
        · cases hread

/-- So do the items of an array. -/
theorem Record.readItems_invariant {holds : α → Prop} (h : r.Keeps holds) {room : Nat}
    {fs : List (Field α)} (hfs : ∀ f ∈ fs, f ∈ r.fields) {index : Nat} {ts : List Tree} {a b : α}
    (hb : holds b) (hread : r.readItems room index b fs ts = .ok a) : holds a := by
  induction fs generalizing index ts b with
  | nil =>
    cases ts with
    | nil => exact Except.ok.inj hread ▸ hb
    | cons t ts => cases hread
  | cons f fs ih =>
    obtain ⟨hf, hrest⟩ := List.forall_mem_cons.mp hfs
    cases ts with
    | nil =>
      -- a field without an item keeps its default
      unfold Record.readItems at hread
      split at hread
      · cases hread
      · exact ih hrest hb hread
    | cons t ts =>
      unfold Record.readItems at hread
      split at hread
      · next set hset => exact ih hrest (h f hf room t set hset b hb) hread
      · cases hread

/-- **What every field keeps** holds of all that is read, from an object or from an array. -/
theorem Record.decoder_invariant (holds : α → Prop) (hblank : holds r.blank) (h : r.Keeps holds)
    {room : Nat} {t : Tree} {a : α} (hread : r.decoder room t = .ok a) : holds a := by
  unfold Record.decoder at hread
  split at hread
  · cases hread
  · cases hread
  · exact Record.readMembers_invariant h _ hblank hread
  · exact Record.readItems_invariant h (fun _ hf => hf) hblank hread
  · cases hread

end

end ClusterClient.Json
