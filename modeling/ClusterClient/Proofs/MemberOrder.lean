import Mathlib.Data.List.Forall2
import Mathlib.Data.List.Nodup
import ClusterClient.Proofs.Layout
import ClusterClient.Proofs.Records

/-!
# Members in any order

The members of an object are read one after the other, but what is read of them does not depend on
where they stand: each of them does its own part, and the parts of different fields do not meddle
with one another.

## The architecture

* **`Record.effect?`**, **`Record.apply`**: what one member does to the record that is read.
* **`Record.Readable`**, **`readMembers_eq_ok_iff`**: when the members of an object are read, and
  what they come to, by induction on the members.
* **`Shape`**: the members of a record as its messages are described, without the record itself.
* **`Record.Regular`**: what is asked of a record's fields: the names of a shape, no effect on one
  another, and defaults that are those of the blank record.
* **`Regular.readMembers_rearranged`**: members in another order, among members of other names and
  with defaults written out.
* **`Regular.readItems_iff`**: the list of all values instead of the object.
-/

namespace ClusterClient.Json

open Decoder

/-! ## What a member does -/

section

variable {α : Type}

namespace Record

variable (r : Record α)

/-- The name of a member, if it is that of a field. -/
def fieldName? (m : Token × Tree) : Option String :=
  match m.1.name with
  | .ok name => if (r.field? name).isSome then some name else none
  | .error _ => none

def fieldNames (ms : List (Token × Tree)) : List String :=
  ms.filterMap r.fieldName?

/-- What a member does to the record that is read: nothing, if its name is not that of a field. -/
def effect? (room : Nat) (m : Token × Tree) : Except Problem (α → α) :=
  match m.1.name with
  | .error p => .error p
  | .ok name =>
    match r.field? name with
    | some f => f.read room m.2
    | none => if m.2.isComplete then .ok id else .error .malformed

/-- The record after a member. -/
def apply (room : Nat) (a : α) (m : Token × Tree) : α :=
  match r.effect? room m with
  | .ok set => set a
  | .error _ => a

/-- The members of an object can be read after those of some names: no field comes twice, none is
missing, and every member has an effect. -/
structure Readable (room : Nat) (seen : List String) (ms : List (Token × Tree)) : Prop where
  single : (r.fieldNames ms).Nodup
  fresh : ∀ name ∈ r.fieldNames ms, name ∉ seen
  accepted : ∀ m ∈ ms, ∃ set, r.effect? room m = .ok set
  complete : ∀ f ∈ r.fields, f.required = true → f.name ∈ seen ∨ f.name ∈ r.fieldNames ms

end Record

variable {r : Record α} {room : Nat} {seen : List String} {a x : α}

/-- A field that is found has the name that was looked for. -/
theorem field?_eq_some {name : String} {f : Field α} (h : r.field? name = some f) :
    f ∈ r.fields ∧ f.name = name :=
  ⟨List.mem_of_find?_eq_some h, by simpa using List.find?_some h⟩

/-- An object may end once all required fields have come. -/
theorem close_eq_ok_iff :
    r.close seen a = .ok x ↔ (∀ f ∈ r.fields, f.required = true → f.name ∈ seen) ∧ a = x := by
  unfold Record.close
  cases h : r.fields.find? fun f => f.required && !seen.contains f.name with
  | none =>
    have hall : ∀ f ∈ r.fields, f.required = true → f.name ∈ seen := by
      simpa using List.find?_eq_none.mp h
    exact ⟨fun hx => ⟨hall, Except.ok.inj hx⟩, fun hx => congrArg Except.ok hx.2⟩
  | some f =>
    refine ⟨fun hx => (nomatch hx), fun ⟨hall, _⟩ => ?_⟩
    have hmissing := List.find?_some h
    have hseen := hall f (List.mem_of_find?_eq_some h)
    simp only [Bool.and_eq_true] at hmissing
    simp [hseen hmissing.1] at hmissing

/-- A member whose name is that of a field. -/
theorem fieldName?_eq_some {m : Token × Tree} {name : String} :
    r.fieldName? m = some name ↔ m.1.name = .ok name ∧ ∃ f, r.field? name = some f := by
  unfold Record.fieldName?
  constructor
  · intro h
    split at h
    · next other hother =>
      split at h
      · next hsome =>
        obtain rfl := Option.some.inj h
        exact ⟨hother, Option.isSome_iff_exists.mp hsome⟩
      · cases h
    · cases h
  · rintro ⟨hname, f, hf⟩
    rw [hname]
    simp [hf]

/-- A member of a field does what reading the field does. -/
theorem effect?_of_field {m : Token × Tree} {name : String} {f : Field α}
    (hname : m.1.name = .ok name) (hf : r.field? name = some f) :
    r.effect? room m = f.read room m.2 := by
  simp only [Record.effect?, hname, hf]

/-- A member of another name does nothing. -/
theorem effect?_of_foreign {m : Token × Tree} {name : String} (hname : m.1.name = .ok name)
    (hf : r.field? name = none) (hm : m.2.isComplete = true) : r.effect? room m = .ok id := by
  simp only [Record.effect?, hname, hf, hm, if_true]

/-- The name of a member that has an effect. -/
theorem name_of_effect? {m : Token × Tree} {set : α → α} (h : r.effect? room m = .ok set) :
    ∃ name, m.1.name = .ok name := by
  cases hname : m.1.name with
  | ok name => exact ⟨name, rfl⟩
  | error p =>
    simp only [Record.effect?, hname] at h
    cases h

/-- The record after a member with an effect. -/
theorem apply_of_effect? {m : Token × Tree} {set : α → α} (h : r.effect? room m = .ok set) (a : α) :
    r.apply room a m = set a := by
  simp only [Record.apply, h]

/-- A member is passed over, or does what reading its field does. -/
theorem apply_cases (r : Record α) (room : Nat) (m : Token × Tree) :
    (∀ a, r.apply room a m = a) ∨ ∃ name f set, r.fieldName? m = some name ∧
      r.field? name = some f ∧ f.read room m.2 = .ok set ∧ ∀ a, r.apply room a m = set a := by
  cases heffect : r.effect? room m with
  | error p => exact .inl fun a => by simp only [Record.apply, heffect]
  | ok set =>
    obtain ⟨name, hname⟩ := name_of_effect? heffect
    cases hf : r.field? name with
    | some f =>
      have hread := (effect?_of_field hname hf).symm.trans heffect
      exact .inr ⟨name, f, set, fieldName?_eq_some.mpr ⟨hname, f, hf⟩, hf, hread,
        apply_of_effect? heffect⟩
    | none =>
      simp only [Record.effect?, hname, hf] at heffect
      split at heffect
      · obtain rfl := Except.ok.inj heffect
        exact .inl fun a => by
          simp only [Record.apply, Record.effect?, *, if_true, id]
      · cases heffect

/-! ## Reading the members -/

theorem fieldNames_cons_of_some {m : Token × Tree} {name : String} (h : r.fieldName? m = some name)
    (ms : List (Token × Tree)) : r.fieldNames (m :: ms) = name :: r.fieldNames ms :=
  List.filterMap_cons_some h

theorem fieldNames_cons_of_none {m : Token × Tree} (h : r.fieldName? m = none)
    (ms : List (Token × Tree)) : r.fieldNames (m :: ms) = r.fieldNames ms :=
  List.filterMap_cons_none h

/-- A field is read, and the others after it. -/
theorem readable_cons_field {m : Token × Tree} {name : String} {f : Field α} {set : α → α}
    {ms : List (Token × Tree)} (hname : m.1.name = .ok name) (hf : r.field? name = some f)
    (hset : f.read room m.2 = .ok set) :
    r.Readable room seen (m :: ms) ↔ name ∉ seen ∧ r.Readable room (name :: seen) ms := by
  have hnames : r.fieldNames (m :: ms) = name :: r.fieldNames ms :=
    fieldNames_cons_of_some (fieldName?_eq_some.mpr ⟨hname, f, hf⟩) ms
  have heffect : r.effect? room m = .ok set := (effect?_of_field hname hf).trans hset
  constructor
  · rintro ⟨single, fresh, accepted, complete⟩
    rw [hnames] at single fresh complete
    obtain ⟨hnotmem, hnodup⟩ := List.nodup_cons.mp single
    refine ⟨fresh name List.mem_cons_self, hnodup, fun k hk => ?_,
      fun m' hm' => accepted m' (List.mem_cons_of_mem _ hm'), fun g hg hrequired => ?_⟩
    · -- a name that comes later is neither seen before nor this one
      rw [List.mem_cons, not_or]
      exact ⟨fun heq => hnotmem (heq ▸ hk), fresh k (List.mem_cons_of_mem _ hk)⟩
    · have := complete g hg hrequired
      rw [List.mem_cons] at this ⊢
      tauto
  · -- read again, the name is new and no later member has it
    rintro ⟨hfresh, single, fresh, accepted, complete⟩
    refine ⟨?_, ?_, ?_, ?_⟩
    · rw [hnames]
      exact List.nodup_cons.mpr ⟨fun hmem => fresh name hmem List.mem_cons_self, single⟩
    · rw [hnames]
      exact List.forall_mem_cons.mpr
        ⟨hfresh, fun k hk hmem => fresh k hk (List.mem_cons_of_mem _ hmem)⟩
    · exact List.forall_mem_cons.mpr ⟨⟨set, heffect⟩, accepted⟩
    · intro g hg hrequired
      have := complete g hg hrequired
      rw [hnames]
      rw [List.mem_cons] at this ⊢
      tauto

/-- A member of another name is passed over, if it keeps the grammar. -/
theorem readable_cons_foreign {m : Token × Tree} {name : String} {ms : List (Token × Tree)}
    (hname : m.1.name = .ok name) (hf : r.field? name = none) (hm : m.2.isComplete = true) :
    r.Readable room seen (m :: ms) ↔ r.Readable room seen ms := by
  have hnone : r.fieldName? m = none := by
    simp only [Record.fieldName?, hname, hf, Option.isSome_none, Bool.false_eq_true, if_false]
  have hnames : r.fieldNames (m :: ms) = r.fieldNames ms := fieldNames_cons_of_none hnone ms
  constructor
  · rintro ⟨single, fresh, accepted, complete⟩
    rw [hnames] at single fresh complete
    exact ⟨single, fresh, fun m' hm' => accepted m' (List.mem_cons_of_mem _ hm'), complete⟩
  · rintro ⟨single, fresh, accepted, complete⟩
    refine ⟨hnames ▸ single, hnames ▸ fresh, ?_, hnames ▸ complete⟩
    exact List.forall_mem_cons.mpr ⟨⟨id, effect?_of_foreign hname hf hm⟩, accepted⟩

/-- What has no effect cannot be read. -/
theorem not_readable_cons {m : Token × Tree} {ms : List (Token × Tree)} {p : Problem}
    (h : r.effect? room m = .error p) : ¬ r.Readable room seen (m :: ms) := by
  intro hreadable
  obtain ⟨set, hset⟩ := hreadable.accepted m List.mem_cons_self
  rw [h] at hset
  cases hset

section

variable {token : Token} {t : Tree} {name : String} {ms : List (Token × Tree)}
  (hname : token.name = .ok name)
include hname

/-- Reading on from a member of a field. -/
theorem readMembers_cons_field {f : Field α} (hf : r.field? name = some f) :
    r.readMembers room seen a ((token, t) :: ms) =
      if name ∈ seen then .error (.data (.duplicateField name))
      else match f.read room t with
        | .ok set => r.readMembers room (name :: seen) (set a) ms
        | .error p => .error p := by
  simp only [Record.readMembers, hname, hf]
  by_cases hseen : name ∈ seen
  · exact (if_pos (List.contains_iff_mem.mpr hseen)).trans (if_pos hseen).symm
  · exact (if_neg (mt List.contains_iff_mem.mp hseen)).trans (if_neg hseen).symm

/-- Reading on from a member of another name. -/
theorem readMembers_cons_foreign (hf : r.field? name = none) :
    r.readMembers room seen a ((token, t) :: ms) =
      if t.isComplete then r.readMembers room seen a ms else .error .malformed := by
  simp only [Record.readMembers, hname, hf]

end

/-- **The members of an object are read** exactly if they are readable, and come to all that they
do. -/
theorem readMembers_eq_ok_iff {ms : List (Token × Tree)} :
    r.readMembers room seen a ms = .ok x ↔
      r.Readable room seen ms ∧ ms.foldl (r.apply room) a = x := by
  induction ms generalizing seen a with
  | nil =>
    rw [Record.readMembers, close_eq_ok_iff]
    refine and_congr_left fun _ => ⟨fun h => ⟨.nil, by simp [Record.fieldNames], by simp,
      fun f hf hr => .inl (h f hf hr)⟩, fun h f hf hr => ?_⟩
    exact (h.complete f hf hr).resolve_right List.not_mem_nil
  | cons m ms ih =>
    obtain ⟨token, t⟩ := m
    rw [List.foldl_cons]
    cases hname : token.name with
    | error p =>
      -- a name that is no text ends the reading
      have herror : r.effect? room (token, t) = .error p := by simp only [Record.effect?, hname]
      refine ⟨fun h => ?_, fun h => absurd h.1 (not_readable_cons herror)⟩
      simp only [Record.readMembers, hname] at h
      cases h
    | ok name =>
      cases hf : r.field? name with
      | some f =>
        have heffect : r.effect? room (token, t) = f.read room t := effect?_of_field hname hf
        rw [readMembers_cons_field hname hf]
        cases hread : f.read room t with
        | error p =>
          refine ⟨fun h => ?_, fun h => absurd h.1 (not_readable_cons (heffect.trans hread))⟩
          split at h <;> cases h
        | ok set =>
          rw [apply_of_effect? (heffect.trans hread), readable_cons_field hname hf hread]
          -- a field that has come before is a fault, and not fresh
          by_cases hseen : name ∈ seen
          · rw [if_pos hseen]
            exact ⟨fun h => (by cases h), fun h => absurd hseen h.1.1⟩
          · rw [if_neg hseen]
            dsimp only
            rw [ih, and_iff_right hseen]
      | none =>
        -- a foreign member only has to keep the grammar
        rw [readMembers_cons_foreign hname hf]
        cases hcomplete : t.isComplete with
        | false =>
          have herror : r.effect? room (token, t) = .error .malformed := by
            simp only [Record.effect?, hname, hf, hcomplete, Bool.false_eq_true, if_false]
          exact ⟨fun h => (by cases h), fun h => absurd h.1 (not_readable_cons herror)⟩
        | true =>
          rw [if_pos rfl, ih, apply_of_effect? (effect?_of_foreign hname hf hcomplete),
            readable_cons_foreign hname hf hcomplete]
          rfl

/-- **A field that comes again** cannot be read. -/
theorem not_readable_of_repeated {before between after : List (Token × Tree)} {m m' : Token × Tree}
    {name : String} (hm : r.fieldName? m = some name) (hm' : r.fieldName? m' = some name) :
    ¬ r.Readable room seen (before ++ m :: (between ++ m' :: after)) := by
  intro hreadable
  have hsingle := hreadable.single
  simp [Record.fieldNames, hm, hm', List.nodup_append] at hsingle

/-! ## Fields that do not meddle -/

namespace Field

/-- What two fields do can be done in either order. -/
def Apart (f g : Field α) : Prop :=
  ∀ room t t' set set', f.read room t = .ok set → g.read room t' = .ok set' →
    ∀ a, set (set' a) = set' (set a)

instance : Std.Symm (Apart (α := α)) :=
  ⟨fun _ _ h room t t' set set' hset hset' a => (h room t' t set' set hset' hset a).symm⟩

/-- Fields are apart if what is read of them can be set in either order. -/
theorem apart_of_comm {β γ : Type} {name name' : String} {required required' : Bool}
    {d : Decoder β} {d' : Decoder γ} {set : β → α → α} {set' : γ → α → α}
    (h : ∀ b c a, set b (set' c a) = set' c (set b a)) :
    Apart ⟨name, required, fun room t => (d room t).map set⟩
      ⟨name', required', fun room t => (d' room t).map set'⟩ := by
  intro room t t' effect effect' heffect heffect' a
  obtain ⟨b, -, rfl⟩ := map_eq_ok.mp heffect
  obtain ⟨c, -, rfl⟩ := map_eq_ok.mp heffect'
  exact h b c a

end Field

/-- The members of a record, as its messages are described: their names in the order in which an
array lists their values, each with its default if it may be left out. -/
abbrev Shape := List (String × Option Value)

namespace Shape

def names (s : Shape) : List String :=
  s.map Prod.fst

/-- A member of a name that the shape does not have, whose value keeps the grammar. -/
def Foreign (s : Shape) (m : Token × Tree) : Prop :=
  (∃ name, m.1.name = .ok name ∧ name ∉ s.names) ∧ m.2.isComplete = true

/-- A member that is written with its default. -/
def Standard (s : Shape) (m : Token × Tree) : Prop :=
  ∃ name v, (name, some v) ∈ s ∧ m.1.name = .ok name ∧ Spells m.2 v

/-- No name of the shape comes twice. -/
def Single (s : Shape) (ms : List (Token × Tree)) : Prop :=
  ms.Pairwise fun m m' => ∀ name ∈ s.names, ¬(m.1.name = .ok name ∧ m'.1.name = .ok name)

end Shape

namespace Record

/-- The fields are those of a shape. They have names of their own and no effect on one another, and
the defaults of the shape are the ones of the blank record. -/
structure Regular (r : Record α) (shape : Shape) : Prop where
  declared : r.fields.map (fun f => (f.name, f.required)) = shape.map fun m => (m.1, m.2.isNone)
  nodup : (r.fields.map Field.name).Nodup
  apart : r.fields.Pairwise Field.Apart
  blank : ∀ m ∈ shape, ∀ v, m.2 = some v → ∃ f ∈ r.fields, f.name = m.1 ∧ f.required = false ∧
    ∀ room t, Spells t v → ∃ set, f.read (room + 1) t = .ok set ∧ set r.blank = r.blank

namespace Regular

variable {shape : Shape}

/-- The names of the fields, in their order. -/
theorem names_eq (h : r.Regular shape) : r.fields.map Field.name = shape.names := by
  have hnames := congrArg (List.map Prod.fst) h.declared
  rw [List.map_map, List.map_map] at hnames
  exact hnames

/-- Every field is found under its name, since no other has it. -/
theorem field?_of_mem (h : r.Regular shape) {f : Field α} (hf : f ∈ r.fields) :
    r.field? f.name = some f := by
  cases hfind : r.field? f.name with
  | none => simpa using List.find?_eq_none.mp hfind f hf
  | some g =>
    obtain ⟨hg, hname⟩ := field?_eq_some hfind
    rw [List.inj_on_of_nodup_map h.nodup hg hf hname]

/-- A name of the shape is that of a field. -/
theorem exists_field (h : r.Regular shape) {name : String} (hname : name ∈ shape.names) :
    ∃ f ∈ r.fields, f.name = name :=
  List.mem_map.mp (h.names_eq ▸ hname)

/-- A member of the shape without a default is a field that must be present. -/
theorem exists_required (h : r.Regular shape) {name : String} (hmem : (name, none) ∈ shape) :
    ∃ f ∈ r.fields, f.name = name ∧ f.required = true := by
  have hlisted : (name, true) ∈ r.fields.map fun f => (f.name, f.required) := by
    rw [h.declared]
    exact List.mem_map.mpr ⟨_, hmem, rfl⟩
  obtain ⟨f, hf, heq⟩ := List.mem_map.mp hlisted
  exact ⟨f, hf, congrArg Prod.fst heq, congrArg Prod.snd heq⟩

/-- No field has a name that the shape does not have. -/
theorem field?_eq_none (h : r.Regular shape) {name : String} (hname : name ∉ shape.names) :
    r.field? name = none := by
  cases hfind : r.field? name with
  | none => rfl
  | some f =>
    obtain ⟨hf, rfl⟩ := field?_eq_some hfind
    exact absurd (h.names_eq ▸ List.mem_map_of_mem hf) hname

/-- Members among which no name of the shape comes twice have no field twice. -/
theorem nodup_fieldNames (h : r.Regular shape) {ms : List (Token × Tree)} (hms : shape.Single ms) :
    (r.fieldNames ms).Nodup := by
  refine List.pairwise_filterMap.mpr (hms.imp fun {m m'} hsingle => ?_)
  rintro name hname _ hname' rfl
  obtain ⟨hm, f, hf⟩ := fieldName?_eq_some.mp hname
  obtain ⟨hmem, rfl⟩ := field?_eq_some hf
  exact hsingle f.name (h.names_eq ▸ List.mem_map_of_mem hmem)
    ⟨hm, (fieldName?_eq_some.mp hname').1⟩

/-- The parts of two members can be done in either order, if no field comes twice. -/
theorem apply_comm (h : r.Regular shape) {ms : List (Token × Tree)}
    (hsingle : (r.fieldNames ms).Nodup) :
    ∀ m ∈ ms, ∀ m' ∈ ms, ∀ a,
      r.apply room (r.apply room a m) m' = r.apply room (r.apply room a m') m := by
  let Commute (m m' : Token × Tree) : Prop :=
    ∀ a, r.apply room (r.apply room a m) m' = r.apply room (r.apply room a m') m
  have hsymm : Std.Symm Commute := ⟨fun _ _ hcomm a => (hcomm a).symm⟩
  have hpairs : ms.Pairwise Commute := by
    refine (List.pairwise_filterMap.mp hsingle).imp fun {m m'} hne a => ?_
    rcases apply_cases r room m with hm | ⟨name, f, set, hname, hf, hread, hm⟩
    · rw [hm, hm]
    · rcases apply_cases r room m' with hm' | ⟨name', g, set', hname', hg, hread', hm'⟩
      · rw [hm', hm']
      · -- two fields of different names
        obtain ⟨hfmem, rfl⟩ := field?_eq_some hf
        obtain ⟨hgmem, rfl⟩ := field?_eq_some hg
        have hfields : f ≠ g := by
          rintro rfl
          exact hne _ hname _ hname' rfl
        rw [hm, hm', hm, hm']
        exact (h.apart.forall hfmem hgmem hfields _ _ _ _ _ hread hread' a).symm
  intro m hm m' hm'
  exact hpairs.forall_of_forall (fun _ _ _ => rfl) hm hm'

/-- What a member does can be done last, if no field comes twice. -/
theorem exists_foldl_apply (h : r.Regular shape) {ms : List (Token × Tree)}
    (hsingle : (r.fieldNames ms).Nodup) {m : Token × Tree} (hm : m ∈ ms) {set : α → α}
    (heffect : r.effect? room m = .ok set) (a : α) : ∃ b, ms.foldl (r.apply room) a = set b := by
  obtain ⟨before, after, rfl⟩ := List.append_of_mem hm
  have hlast : (before ++ m :: after).Perm ((before ++ after) ++ [m]) :=
    List.perm_middle.trans (List.perm_append_singleton m (before ++ after)).symm
  rw [hlast.foldl_eq' (h.apply_comm hsingle), List.foldl_append, List.foldl_cons, List.foldl_nil,
    apply_of_effect? heffect]
  exact ⟨_, rfl⟩

/-- A member that is foreign, or written with its default, can be read and changes nothing. -/
theorem effect?_extra (h : r.Regular shape) {m : Token × Tree}
    (hm : shape.Foreign m ∨ shape.Standard m) :
    ∃ set, r.effect? (room + 1) m = .ok set ∧ set r.blank = r.blank := by
  rcases hm with ⟨⟨name, hname, hforeign⟩, hcomplete⟩ | ⟨name, v, hmem, hname, hspells⟩
  · exact ⟨id, effect?_of_foreign hname (h.field?_eq_none hforeign) hcomplete, rfl⟩
  · obtain ⟨f, hf, rfl, -, hblank⟩ := h.blank _ hmem v rfl
    obtain ⟨set, hset, hkeeps⟩ := hblank room m.2 hspells
    exact ⟨set, (effect?_of_field hname (h.field?_of_mem hf)).trans hset, hkeeps⟩

/-- No member of these is one that must be present. -/
theorem required_extra (h : r.Regular shape) {m : Token × Tree}
    (hm : shape.Foreign m ∨ shape.Standard m) {f : Field α} (hf : f ∈ r.fields)
    (hname : r.fieldName? m = some f.name) : f.required = false := by
  obtain ⟨hname, g, hg⟩ := fieldName?_eq_some.mp hname
  rcases hm with ⟨⟨name, hname', hforeign⟩, -⟩ | ⟨name, v, hmem, hname', -⟩
  · obtain rfl := Except.ok.inj (hname.symm.trans hname')
    cases hg.symm.trans (h.field?_eq_none hforeign)
  · obtain ⟨k, hk, heq, hoptional, -⟩ := h.blank _ hmem v rfl
    have hnames : k.name = f.name := heq.trans (Except.ok.inj (hname'.symm.trans hname))
    rw [← List.inj_on_of_nodup_map h.nodup hk hf hnames]
    exact hoptional

/-- Foreign members and defaults that are written out leave the blank record as it is. -/
theorem foldl_extra (h : r.Regular shape) {extra : List (Token × Tree)}
    (hextra : ∀ m ∈ extra, shape.Foreign m ∨ shape.Standard m) :
    extra.foldl (r.apply (room + 1)) r.blank = r.blank := by
  induction extra with
  | nil => rfl
  | cons m extra ih =>
    obtain ⟨hm, hrest⟩ := List.forall_mem_cons.mp hextra
    obtain ⟨set, hset, hkeeps⟩ :
        ∃ set, r.effect? (room + 1) m = .ok set ∧ set r.blank = r.blank := h.effect?_extra hm
    rw [List.foldl_cons, apply_of_effect? hset, hkeeps, ih hrest]

section

variable {ms ms' extra : List (Token × Tree)} (h : r.Regular shape)
  (hperm : ms'.Perm (ms ++ extra)) (hextra : ∀ m ∈ extra, shape.Foreign m ∨ shape.Standard m)
  (hsingle : (r.fieldNames ms').Nodup)
include h hperm hextra hsingle

/-- Members in another order can be read exactly if they could before. -/
theorem readable_rearranged : r.Readable (room + 1) [] ms ↔ r.Readable (room + 1) [] ms' := by
  have hnames : (r.fieldNames ms').Perm (r.fieldNames ms ++ r.fieldNames extra) := by
    rw [fieldNames, fieldNames, fieldNames, ← List.filterMap_append]
    exact hperm.filterMap _
  constructor
  · intro hms
    refine ⟨hsingle, by simp, fun m hm => ?_, fun f hf hrequired => .inr ?_⟩
    · rcases List.mem_append.mp (hperm.mem_iff.mp hm) with hm | hm
      · exact hms.accepted m hm
      · obtain ⟨set, hset, -⟩ := h.effect?_extra (hextra m hm)
        exact ⟨set, hset⟩
    · have hmem := (hms.complete f hf hrequired).resolve_left (by simp)
      exact hnames.mem_iff.mpr (List.mem_append_left _ hmem)
  · intro hms
    -- what was read among others can be read without them
    have hnodup := List.nodup_append.mp (hnames.nodup_iff.mp hsingle)
    refine ⟨hnodup.1, by simp, fun m hm => ?_, fun f hf hrequired => .inr ?_⟩
    · exact hms.accepted m (hperm.mem_iff.mpr (List.mem_append_left _ hm))
    · have hmem := (hms.complete f hf hrequired).resolve_left (by simp)
      rcases List.mem_append.mp (hnames.mem_iff.mp hmem) with hmem | hmem
      · exact hmem
      · -- a field that must be present is none of the others
        obtain ⟨m, hm, hname⟩ := List.mem_filterMap.mp hmem
        rw [h.required_extra (hextra m hm) hf hname] at hrequired
        cases hrequired

/-- **Members in another order**, among foreign ones and with defaults written out, are read if they
were read before, and come to the same. -/
theorem readMembers_rearranged :
    r.readMembers (room + 1) [] r.blank ms = .ok x ↔
      r.readMembers (room + 1) [] r.blank ms' = .ok x := by
  have hreadable : r.Readable (room + 1) [] ms ↔ r.Readable (room + 1) [] ms' :=
    h.readable_rearranged hperm hextra hsingle
  -- what changes nothing is moved to the front
  have hfront : ms'.Perm (extra ++ ms) := hperm.trans List.perm_append_comm
  have hfold : ms'.foldl (r.apply (room + 1)) r.blank = ms.foldl (r.apply (room + 1)) r.blank := by
    rw [hfront.foldl_eq' (h.apply_comm hsingle), List.foldl_append, h.foldl_extra hextra]
  rw [readMembers_eq_ok_iff, readMembers_eq_ok_iff, hreadable, hfold]

end

/-! ## The list of all values -/

/-- **The items of an array are read** exactly if each of them can be, and come to all that they do.
-/
theorem readItems_eq_ok_iff {fs : List (Field α)} {ms : List (Token × Tree)}
    (h : List.Forall₂ (fun f m => r.effect? room m = f.read room m.2) fs ms) {index : Nat} :
    r.readItems room index a fs (ms.map Prod.snd) = .ok x ↔
      (∀ m ∈ ms, ∃ set, r.effect? room m = .ok set) ∧ ms.foldl (r.apply room) a = x := by
  induction h generalizing index a with
  | nil => simp [readItems]
  | @cons f m fs ms hread _ ih =>
    rw [List.map_cons, readItems, List.foldl_cons, List.forall_mem_cons, ← hread]
    cases heffect : r.effect? room m with
    | error p => simp
    | ok set =>
      dsimp only
      rw [apply_of_effect? heffect, ih]
      simp

/-- The names of members that belong to some fields one by one. -/
theorem fieldNames_listed (h : r.Regular shape) {fs : List (Field α)}
    {ms : List (Token × Tree)}
    (hfs : List.Forall₂ (fun f m => f ∈ r.fields ∧ m.1.name = .ok f.name) fs ms) :
    r.fieldNames ms = fs.map Field.name := by
  induction hfs with
  | nil => rfl
  | cons hf _ ih =>
    rw [fieldNames_cons_of_some (fieldName?_eq_some.mpr ⟨hf.2, _, h.field?_of_mem hf.1⟩), ih,
      List.map_cons]

/-- **The list of all values** is read as the object is. -/
theorem readItems_iff (h : r.Regular shape) {ms : List (Token × Tree)}
    (hnames : List.Forall₂ (fun f m => m.1.name = .ok f.name) r.fields ms) :
    r.readItems room 0 r.blank r.fields (ms.map Prod.snd) = .ok x ↔
      r.readMembers room [] r.blank ms = .ok x := by
  have hfields : List.Forall₂ (fun f m => f ∈ r.fields ∧ m.1.name = .ok f.name) r.fields ms :=
    (List.forall₂_and_left _ _).mpr ⟨fun _ hf => hf, hnames⟩
  have heffects : List.Forall₂ (fun f m => r.effect? room m = f.read room m.2) r.fields ms :=
    hfields.imp fun {_ _} hf => effect?_of_field hf.2 (h.field?_of_mem hf.1)
  have hall : r.fieldNames ms = r.fields.map Field.name := h.fieldNames_listed hfields
  rw [readItems_eq_ok_iff heffects, readMembers_eq_ok_iff]
  refine and_congr_left fun _ => ⟨fun haccepted => ?_, fun hreadable => hreadable.accepted⟩
  refine ⟨hall ▸ h.nodup, by simp, haccepted, fun f hf _ => .inr ?_⟩
  rw [hall]
  exact List.mem_map_of_mem hf

end Regular

end Record

end

end ClusterClient.Json
