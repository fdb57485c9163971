import ClusterClient.Message.Findings
import ClusterClient.Proofs.Compatibility

/-!
# Hits of every shape

A hit is read from whatever the cluster holds: a pair of a unit and a number is a unit with a score,
and any other value is a unit without one. Nothing is lost by the detour through a recording, so an
answer has a hit for every item of its results, in their order, whatever the items are.

* **`value_ofRecording`**: a recording holds the value that any reader of values finds.
* **`Hit.ofValue`**, **`Hit.decoder_eq`**: the hit that a value is, and that it is the one read.
* **`Findings.Holds`**, **`Findings.decode_of_holds`**: answers that hold results, and what is read
  of them.
* **`hits_faithful`**: both together.
-/

namespace ClusterClient

namespace Json

open Decoder

/-! ## Recordings hold values -/

/-- The recording of a scalar holds its value, and there is none if it has none. -/
theorem value_ofScalar (s : Scalar) : (Recording.ofScalar s).map Recording.value = s.value := by
  cases s with
  | null | bool => rfl
  | number n =>
    rw [Recording.ofScalar, Scalar.value]
    cases n.number? <;> rfl
  | string ps =>
    rw [Recording.ofScalar, Scalar.value]
    cases textOfPieces? ps <;> rfl

mutual

/-- **A recording holds the value**, and what has none is not recorded. -/
theorem value_ofRecording (room : Nat) (t : Tree) :
    (ofRecording room t).map Recording.value = ofValue room t := by
  match t, room with
  | .scalar s, _ => exact value_ofScalar s
  | .array _, 0 | .object _, 0 => rfl
  | .array items, room + 1 =>
    have hitems := itemValues_recordItems room items
    rw [ofRecording, ofValue, ← hitems]
    cases recordItems room items <;> rfl
  | .object members, room + 1 =>
    have hmembers := memberValues_recordMembers room members []
    rw [ofRecording, ofValue, ← hmembers]
    cases recordMembers room members <;> rfl
  | .broken, _ => rfl

/-- The recordings of items hold their values. -/
theorem itemValues_recordItems (room : Nat) (ts : List Tree) :
    (recordItems room ts).map Recording.itemValues = ofItems room ts := by
  match ts with
  | [] => rfl
  | t :: ts =>
    have hfirst := value_ofRecording room t
    have hrest := itemValues_recordItems room ts
    rw [recordItems, ofItems, ← hfirst, ← hrest]
    cases ofRecording room t with
    | error p => rfl
    | ok r => cases recordItems room ts <;> rfl

/-- The members are recorded as they come, and only later the last of a name counts. -/
theorem memberValues_recordMembers (room : Nat) (ms : List (Token × Tree))
    (done : List (String × Value)) :
    (recordMembers room ms).map (fun rs => (Recording.memberValues rs).foldl
      (fun done m => insertMember m.1 m.2 done) done) = ofMembers room done ms := by
  match ms with
  | [] => rfl
  | (token, t) :: ms =>
    have hfirst := value_ofRecording room t
    simp only [recordMembers, ofMembers]
    cases token.name with
    | error p => rfl
    | ok name =>
      dsimp only
      rw [← hfirst]
      cases ofRecording room t with
      | error p => rfl
      | ok r =>
        have hrest := memberValues_recordMembers room ms (insertMember name r.value done)
        dsimp only [Except.map]
        rw [← hrest]
        cases recordMembers room ms <;> rfl

end

/-- The single precision number nearest to a number. -/
def Number.single : Number → Binary32
  | .integer i => .ofInt i
  | .real x => x.convert .single

end Json

open Json

namespace Hit

/-- The hit that a value is: a pair whose second part is a number is a unit with its score, and any
other value is a unit alone. -/
def ofValue : Value → Hit
  | .array [unit, .number n] => ⟨unit, some n.single⟩
  | v => ⟨v, none⟩

/-- What is no pair with a number is a unit without a score. -/
theorem ofValue_of_ne {v : Value} (h : ∀ unit n, v ≠ .array [unit, .number n]) :
    ofValue v = ⟨v, none⟩ := by
  unfold ofValue
  split
  · next unit n => exact absurd rfl (h unit n)
  · rfl

/-- However a recording is read, the hit is that of its value. -/
theorem scored_or_bare (r : Recording) : (scored? r).getD (bare r) = ofValue r.value := by
  match r with
  | .array [unit, score] =>
    cases score with
    | number n => cases n <;> rfl
    | null | bool | string | array | object => rfl
  | .array (_ :: _ :: _ :: _) =>
    exact (ofValue_of_ne (by simp [Recording.value, Recording.itemValues])).symm
  | .array [] | .array [_] => rfl
  | .null | .bool _ | .number _ | .string _ | .object _ => rfl

/-- **A hit is read where a value is**, and is the hit of that value. -/
theorem decoder_eq (room : Nat) (t : Tree) :
    decoder room t = (Decoder.ofValue room t).map ofValue := by
  rw [decoder, Decoder.reading, ← value_ofRecording]
  cases Decoder.ofRecording room t with
  | error p => rfl
  | ok r =>
    have hway : ([scored?].findSome? (· r)).getD (bare r) = (scored? r).getD (bare r) := by
      rw [List.findSome?_singleton]
    exact congrArg Except.ok (hway.trans (scored_or_bare r))

/-- **A hit is read through its value.** -/
theorem decode_decoder (body : List UInt8) :
    decode decoder body = (decode Decoder.ofValue body).map ofValue := by
  simp only [decode, decoder_eq]
  cases Decoder.ofValue nestingLimit (Document.ofBytes body).tree with
  | error p => rfl
  | ok v => cases (Document.ofBytes body).trailing <;> rfl

/-- Hits are read where values are, each in its place. -/
theorem each_decoder (room : Nat) (ts : List Json.Tree) :
    Decoder.each decoder room ts = (Decoder.ofItems room ts).map (List.map ofValue) := by
  induction ts with
  | nil => rfl
  | cons t ts ih =>
    rw [Decoder.each, Decoder.ofItems, decoder_eq, ih]
    cases Decoder.ofValue room t with
    | error p => rfl
    | ok v => cases Decoder.ofItems room ts <;> rfl

/-- The hits of an array are those of its items, in their order. -/
theorem listOf_decoder {room : Nat} {t : Json.Tree} {items : List Value}
    (h : Decoder.ofValue room t = .ok (.array items)) :
    decoder.listOf room t = .ok (items.map ofValue) := by
  match t, room with
  | .array ts, room + 1 =>
    obtain ⟨vs, hvs, heq⟩ := Decoder.map_eq_ok.mp h
    obtain rfl := Value.array.inj heq
    show Decoder.each decoder room ts = _
    rw [each_decoder, hvs]
    rfl
  | .object ms, room + 1 =>
    obtain ⟨final, -, heq⟩ := Decoder.map_eq_ok.mp h
    cases heq
  | .scalar s, _ =>
    have hs : s.value = .ok (.array items) := h
    unfold Scalar.value at hs
    split at hs
    · cases hs
    · cases hs
    · split at hs <;> cases hs
    · split at hs <;> cases hs

end Hit

namespace Findings

/-- The members of an answer that holds results: no field comes twice, the results are a list of
values, the stream has an identifier and the query a text unless they are null or left out. Members
of other names may hold anything. -/
structure Holds (ms : List (Token × Json.Tree)) (items : List Value) : Prop where
  named : ∀ m ∈ ms, ∃ name, m.1.name = .ok name
  single : (record.fieldNames ms).Nodup
  stream : ∀ m ∈ ms, m.1.name = .ok "stream_id" →
    Spells m.2 .null ∨ ∃ s u, Spells m.2 (.string s) ∧ Uuid.read? s.toList = some u
  query : ∀ m ∈ ms, m.1.name = .ok "query" → Spells m.2 .null ∨ ∃ s, Spells m.2 (.string s)
  results : ∀ m ∈ ms, m.1.name = .ok "results" →
    Decoder.ofValue (nestingLimit - 1) m.2 = .ok (.array items)
  present : ∃ m ∈ ms, m.1.name = .ok "results"

variable {ms : List (Token × Json.Tree)} {items : List Value}

/-- What the member of the results does. -/
theorem Holds.effect?_results (h : Holds ms items) {m : Token × Json.Tree} (hm : m ∈ ms)
    (hname : m.1.name = .ok "results") :
    record.effect? (nestingLimit - 1) m =
      .ok fun a => { a with hits := items.map Hit.ofValue } := by
  rw [effect?_of_field hname rfl]
  exact Decoder.map_eq_ok.mpr ⟨_, Hit.listOf_decoder (h.results m hm hname), rfl⟩

/-- Every member can be read. -/
theorem Holds.accepted (h : Holds ms items) (hcomplete : Json.Tree.membersComplete ms = true)
    {m : Token × Json.Tree} (hm : m ∈ ms) :
    ∃ set, record.effect? (nestingLimit - 1) m = .ok set := by
  obtain ⟨name, hname⟩ := h.named m hm
  cases hf : record.field? name with
  | none => exact ⟨id, effect?_of_foreign hname hf (Json.Tree.isComplete_of_mem hcomplete hm)⟩
  | some f =>
    obtain ⟨hmem, rfl⟩ := field?_eq_some hf
    rw [effect?_of_field hname hf]
    simp only [record, List.mem_cons, List.not_mem_nil, or_false] at hmem
    rcases hmem with rfl | rfl | rfl
    · obtain ⟨u, hu⟩ : ∃ u, Decoder.ofUuid.optional (nestingLimit - 1) m.2 = .ok u := by
        rcases h.stream m hm hname with hnull | ⟨s, u, hs, hu⟩
        · exact ⟨none, decodes_null _ _ hnull⟩
        · exact ⟨some u, (decodes_uuid hu).optional (by simp) _ _ hs⟩
      exact ⟨_, Decoder.map_eq_ok.mpr ⟨u, hu, rfl⟩⟩
    · obtain ⟨s, hs⟩ : ∃ s, Decoder.ofString.optional (nestingLimit - 1) m.2 = .ok s := by
        rcases h.query m hm hname with hnull | ⟨s, hs⟩
        · exact ⟨none, decodes_null _ _ hnull⟩
        · exact ⟨some s, (decodes_string s).optional (by simp) _ _ hs⟩
      exact ⟨_, Decoder.map_eq_ok.mpr ⟨s, hs, rfl⟩⟩
    · exact ⟨_, Decoder.map_eq_ok.mpr ⟨_, Hit.listOf_decoder (h.results m hm hname), rfl⟩⟩

/-- **An answer that holds results is read**, with a hit for every item of them, in their order. -/
theorem decode_of_holds (h : Holds ms items) {body : List UInt8}
    (hbody : TreeText (.object ms) body) :
    ∃ a, decode decoder body = .ok a ∧ a.hits = items.map Hit.ofValue := by
  have hcomplete : Json.Tree.membersComplete ms = true := hbody.1
  have hreadable : record.Readable (nestingLimit - 1) [] ms := by
    refine ⟨h.single, by simp, fun m hm => h.accepted hcomplete hm, ?_⟩
    simp [record, Field.defaulted]
  obtain ⟨m, hm, hname⟩ := h.present
  obtain ⟨a, ha⟩ := regular.exists_foldl_apply h.single hm (h.effect?_results hm hname) record.blank
  refine ⟨_, (Record.decode_object hbody).trans (readMembers_eq_ok_iff.mpr ⟨hreadable, ha⟩), rfl⟩

end Findings

/-- **Hits of every shape.** A body is a hit exactly if it is a value, and the hit is that of the
value: a pair of a unit and a number is the unit with that score, all else a unit alone. An answer
that holds results has the hits of all of them, in their order. -/
theorem hits_faithful :
    (∀ body, (∃ h, decode Hit.decoder body = .ok h) ↔ ∃ v, decode Decoder.ofValue body = .ok v) ∧
    (∀ body v, Denotes nestingLimit body v →
      decode Hit.decoder body = .ok (Hit.ofValue v) ∧
      (∀ unit n, v = .array [unit, .number n] → Hit.ofValue v = ⟨unit, some n.single⟩) ∧
      ((∀ unit n, v ≠ .array [unit, .number n]) → Hit.ofValue v = ⟨v, none⟩)) ∧
    ∀ ms items body, TreeText (.object ms) body → Findings.Holds ms items →
      ∃ a, decode Findings.decoder body = .ok a ∧ a.hits = items.map Hit.ofValue := by
  refine ⟨fun body => ?_, fun body v hbody => ⟨?_, ?_, Hit.ofValue_of_ne⟩, ?_⟩
  · rw [Hit.decode_decoder]
    constructor
    · rintro ⟨h, hh⟩
      obtain ⟨v, hv, -⟩ := Decoder.map_eq_ok.mp hh
      exact ⟨v, hv⟩
    · rintro ⟨v, hv⟩
      exact ⟨_, Decoder.map_eq_ok.mpr ⟨v, hv, rfl⟩⟩
  · rw [Hit.decode_decoder, decode_ofValue_iff.mpr hbody]
    rfl
  · rintro unit n rfl
    rfl
  · exact fun ms items body hbody hholds => Findings.decode_of_holds hholds hbody

/-- An answer with a scored hit between others, after a member that answers do not have. -/
def mixedAnswer : List UInt8 :=
  Utf8.encode "\x7b\"took\":\x7b\x7d,\"results\":[true,[null,2],[null]]\x7d"

/-- The members of that answer. -/
def mixedMembers : List (Token × Json.Tree) :=
  [(.scalar (plainString "took"), .object []),
    (.scalar (plainString "results"), .array [.scalar (.bool true),
      .array [.scalar .null, .scalar (.number ⟨false, [2], [], none⟩)], .array [.scalar .null]])]

/-- Each result is a hit, and one of them has a score. -/
theorem hits_faithful_of_mixed : ∃ a, decode Findings.decoder mixedAnswer = .ok a ∧
    a.hits = [⟨.bool true, none⟩, ⟨.null, some (.ofInt 2)⟩, ⟨.array [.null], none⟩] := by
  have htext : TreeText (.object mixedMembers) mixedAnswer :=
    treeText_iff.mpr ⟨rfl, by decide +kernel⟩
  have htook : (Token.scalar (plainString "took")).name = .ok "took" := by decide +kernel
  have hresults : (Token.scalar (plainString "results")).name = .ok "results" := by decide +kernel
  have hholds : Findings.Holds mixedMembers
      [.bool true, .array [.null, .number (.integer 2)], .array [.null]] := by
    have hother : ∀ name, name ≠ "took" → name ≠ "results" →
        ∀ m ∈ mixedMembers, m.1.name ≠ .ok name := by
      rintro name hne hne' m hm heq
      rcases List.mem_pair.mp hm with rfl | rfl
      · exact hne (Except.ok.inj (heq.symm.trans htook))
      · exact hne' (Except.ok.inj (heq.symm.trans hresults))
    refine ⟨fun m hm => ?_, by decide +kernel, fun m hm h => ?_, fun m hm h => ?_, fun m hm h => ?_,
      ⟨_, List.mem_cons_of_mem _ List.mem_cons_self, hresults⟩⟩
    · rcases List.mem_pair.mp hm with rfl | rfl
      · exact ⟨_, htook⟩
      · exact ⟨_, hresults⟩
    · exact absurd h (hother _ (by decide) (by decide) m hm)
    · exact absurd h (hother _ (by decide) (by decide) m hm)
    · rcases List.mem_pair.mp hm with rfl | rfl
      · exact absurd (Except.ok.inj (htook.symm.trans h)) (by decide)
      · rfl
  exact hits_faithful.2.2 mixedMembers _ mixedAnswer htext hholds

end ClusterClient
