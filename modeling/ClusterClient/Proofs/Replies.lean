import ClusterClient.Proofs.Writing
import ClusterClient.Routing.Verdict

/-!
# Replies with a value for a body

The reply that carries a value has its compact text, and gives the value back: whether a node's
refusal is seen depends on the value alone. The room for nested arrays and objects is the one limit;
past it the body is no value, and so bears no mark.

* **`text_ofValue`**: the text of such a reply.
* **`value_ofValue`**, **`value_too_deep`**: the value it gives back, within the room and past it.
* **`verdict_eq_redirect`**, **`verdict_eq_notLeader`**, **`verdict_iff_of_value`**: the marks, by
  the members of the value.
* **`reply_roundtrip`**: all of these together.
-/

namespace ClusterClient

open Json

/-- A member that is a text. -/
theorem Json.Value.textOf?_eq_some {v : Value} {name text : String} :
    v.textOf? name = some text ↔ v.get? name = some (.string text) := by
  rw [Value.textOf?, Option.bind_eq_some_iff]
  constructor
  · rintro ⟨w, hw, htext⟩
    cases w with
    | string s =>
      obtain rfl := Option.some.inj htext
      exact hw
    | null | bool | number | array | object => cases htext
  · exact fun h => ⟨_, h, rfl⟩

namespace Reply

variable (status : Nat) {v : Value}

/-- The text of a reply that carries a value is the value, written. -/
theorem text_ofValue (v : Value) : (ofValue status v).text = String.ofList v.written := by
  have hdecode : Utf8.decode? v.toBytes = some (String.ofList v.written) := by
    rw [Utf8.decode?_eq_some_iff, Utf8.encode, String.toList_ofList]
    rfl
  exact Utf8.decodeLossy_of_decode? hdecode

/-- **The value comes back.** -/
theorem value_ofValue (hordered : v.Ordered) (hintegral : v.Integral)
    (hroom : v.nesting ≤ nestingLimit) : (ofValue status v).value = .ok v := by
  obtain ⟨t, ht, hdocument⟩ := exists_document v
  apply decode_eq_ok.mpr
  show Decoder.ofValue nestingLimit (Document.ofBytes v.toBytes).tree = .ok v ∧
    (Document.ofBytes v.toBytes).trailing = false
  rw [hdocument]
  exact ⟨ofValue_spelled ht hordered hintegral hroom, rfl⟩

/-- **Past the room there is no value.** -/
theorem value_too_deep (hroom : nestingLimit < v.nesting) :
    (ofValue status v).value = .error .malformed := by
  obtain ⟨t, ht, hdocument⟩ := exists_document v
  show decode Decoder.ofValue v.toBytes = .error .malformed
  unfold decode
  rw [hdocument]
  dsimp only
  rw [ofValue_too_deep ht hroom]

/-! ## The marks -/

section

variable {r : Reply}

/-- The inversion of a referral: its status, its mark and its leader. -/
theorem verdict_eq_redirect {leader : Option Nat} :
    r.verdict = .redirect leader ↔ r.status = 200 ∧ ∃ v, r.object? = some v ∧
      v.textOf? "status" = some redirectStatus ∧
      (v.get? "leader_id").bind Value.natural? = leader := by
  constructor
  · intro h
    unfold verdict at h
    split at h
    · next hs =>
      split at h
      · next v hv =>
        split at h
        · next hmark => exact ⟨hs, v, hv, hmark, Verdict.redirect.inj h⟩
        · cases h
      · cases h
    · split at h
      · split at h
        · split at h <;> cases h
        · cases h
      · cases h
  · rintro ⟨hs, v, hv, hmark, rfl⟩
    unfold verdict
    rw [if_pos hs, hv]
    exact if_pos hmark

/-- The inversion of a node that does not lead: its status, its mark and its hint. -/
theorem verdict_eq_notLeader {hint : Option String} :
    r.verdict = .notLeader hint ↔ r.status = 503 ∧ ∃ v, r.object? = some v ∧
      v.textOf? "error" = some notLeaderError ∧ v.textOf? "hint" = hint := by
  constructor
  · intro h
    unfold verdict at h
    split at h
    · split at h
      · split at h <;> cases h
      · cases h
    · split at h
      · next hs =>
        split at h
        · next v hv =>
          split at h
          · next hmark => exact ⟨hs, v, hv, hmark, Verdict.notLeader.inj h⟩
          · cases h
        · cases h
      · cases h
  · rintro ⟨hs, v, hv, hmark, rfl⟩
    have hother : r.status ≠ 200 := by omega
    unfold verdict
    rw [if_neg hother, if_pos hs, hv]
    exact if_pos hmark

/-- A body that is no object bears no mark. -/
theorem verdict_of_no_object (h : r.object? = none) :
    r.verdict = if r.status = 200 then .success else .other := by
  unfold verdict
  rw [h]
  split
  · rfl
  · exact ite_self _

/-- **A reply that gives a value** is judged by the value alone. -/
theorem verdict_iff_of_value (h : r.value = .ok v) :
    (∀ leader, r.verdict = .redirect leader ↔ r.status = 200 ∧
      (∃ ms, v = .object ms ∧ ms.lookup "status" = some (.string "redirect")) ∧
      (v.get? "leader_id").bind Value.natural? = leader) ∧
    (∀ hint, r.verdict = .notLeader hint ↔ r.status = 503 ∧
      (∃ ms, v = .object ms ∧ ms.lookup "error" = some (.string "Not Leader")) ∧
      v.textOf? "hint" = hint) := by
  -- the router sees an object exactly if the value is one, and then the value
  have hobject : ∀ w, r.object? = some w ↔ w = v ∧ ∃ ms, v = .object ms := by
    intro w
    rw [object?_eq_some_iff]
    constructor
    · rintro ⟨ms, rfl, hw⟩
      obtain rfl := Except.ok.inj (h.symm.trans hw)
      exact ⟨rfl, ms, rfl⟩
    · rintro ⟨rfl, ms, hms⟩
      exact ⟨ms, hms, h⟩
  constructor
  · intro leader
    rw [verdict_eq_redirect]
    constructor
    · rintro ⟨hs, w, hw, hmark, hleader⟩
      obtain ⟨rfl, ms, rfl⟩ := (hobject w).mp hw
      exact ⟨hs, ⟨ms, rfl, Value.textOf?_eq_some.mp hmark⟩, hleader⟩
    · rintro ⟨hs, ⟨ms, rfl, hmark⟩, hleader⟩
      exact ⟨hs, _, (hobject _).mpr ⟨rfl, ms, rfl⟩, Value.textOf?_eq_some.mpr hmark, hleader⟩
  · intro hint
    rw [verdict_eq_notLeader]
    constructor
    · rintro ⟨hs, w, hw, hmark, hhint⟩
      obtain ⟨rfl, ms, rfl⟩ := (hobject w).mp hw
      exact ⟨hs, ⟨ms, rfl, Value.textOf?_eq_some.mp hmark⟩, hhint⟩
    · rintro ⟨hs, ⟨ms, rfl, hmark⟩, hhint⟩
      exact ⟨hs, _, (hobject _).mpr ⟨rfl, ms, rfl⟩, Value.textOf?_eq_some.mpr hmark, hhint⟩

/-- What gives no value is no refusal. -/
theorem verdict_of_error {p : Problem} (h : r.value = .error p) :
    r.verdict = (if r.status = 200 then .success else .other) ∧ r.verdict.isRetryable = false := by
  have hnone : r.object? = none := object?_eq_none_iff.mpr fun ms => h ▸ nofun
  rw [verdict_of_no_object hnone]
  refine ⟨rfl, ?_⟩
  split <;> rfl

end

/-- **A reply with a value for a body.** Its text is the compact text of the value; within the room
for nested arrays and objects it gives the value back and is judged by it; past the room it gives
no value, and whatever marks the value has, the reply is no refusal. -/
theorem reply_roundtrip (v : Value) :
    (ofValue status v).text = String.ofList v.written ∧
    (v.Ordered → v.Integral → v.nesting ≤ 127 →
      (ofValue status v).value = .ok v ∧
      (∀ leader, (ofValue status v).verdict = .redirect leader ↔ status = 200 ∧
        (∃ ms, v = .object ms ∧ ms.lookup "status" = some (.string "redirect")) ∧
        (v.get? "leader_id").bind Value.natural? = leader) ∧
      (∀ hint, (ofValue status v).verdict = .notLeader hint ↔ status = 503 ∧
        (∃ ms, v = .object ms ∧ ms.lookup "error" = some (.string "Not Leader")) ∧
        v.textOf? "hint" = hint)) ∧
    (128 ≤ v.nesting →
      (ofValue status v).value = .error .malformed ∧
      (ofValue status v).verdict = (if status = 200 then .success else .other) ∧
      (ofValue status v).verdict.isRetryable = false) := by
  refine ⟨text_ofValue status v, fun hordered hintegral hroom => ?_, fun hdeep => ?_⟩
  · have hvalue := value_ofValue status hordered hintegral hroom
    exact ⟨hvalue, verdict_iff_of_value hvalue⟩
  · have herror := value_too_deep status hdeep
    exact ⟨herror, verdict_of_error herror⟩

/-- A refusal whose hint needs escapes and lies beyond the basic plane, with both bounds of the
integers. -/
def refusalNotice : Value :=
  .object [("error", .string "Not Leader"), ("hint", .string "\"a\\b\"\t\x01é😀"),
    ("terms", .array [.number (.integer (-2 ^ 63)), .number (.integer (2 ^ 64 - 1))])]

/-- Arrays around one another. -/
def nestedArrays : Nat → Value
  | 0 => .null
  | n + 1 => .array [nestedArrays n]

theorem nesting_nestedArrays (n : Nat) : (nestedArrays n).nesting = n := by
  induction n with
  | zero => rfl
  | succ n ih =>
    show max (nestedArrays n).nesting 0 + 1 = n + 1
    rw [ih, Nat.max_zero]

/-- A referral with one array too many. -/
def buriedReferral : Value :=
  .object [("log", nestedArrays 127), ("status", .string "redirect")]

/-- The refusal is seen with its hint; the referral lies too deep to be seen. -/
theorem reply_roundtrip_of_marks :
    ((ofValue 503 refusalNotice).value = .ok refusalNotice ∧
      (ofValue 503 refusalNotice).verdict = .notLeader (some "\"a\\b\"\t\x01é😀")) ∧
    (ofValue 200 buriedReferral).value = .error .malformed ∧
      (ofValue 200 buriedReferral).verdict = .success := by
  have hascending : "error" < "hint" ∧ "error" < "terms" ∧ "hint" < "terms" := by decide
  have hordered : refusalNotice.Ordered := by
    refine ⟨?_, trivial, trivial, ⟨trivial, trivial, trivial, trivial⟩, trivial⟩
    show Ascending _
    unfold Ascending
    simp only [List.pairwise_cons, List.forall_mem_cons]
    exact ⟨⟨hascending.1, hascending.2.1, nofun⟩, ⟨hascending.2.2, nofun⟩, nofun, .nil⟩
  have hintegral : refusalNotice.Integral := by
    simp [refusalNotice, Value.Integral, Value.Throughout, Value.ThroughoutItems,
      Value.ThroughoutMembers, Value.Whole]
  have hshallow : refusalNotice.nesting ≤ 127 := by decide
  -- 127 arrays in an object are one container too many
  have hdeep : 128 ≤ buriedReferral.nesting := by
    show 128 ≤ max (nestedArrays 127).nesting (max 0 0) + 1
    rw [nesting_nestedArrays]
    decide
  obtain ⟨hvalue, -, hhint⟩ := (reply_roundtrip 503 refusalNotice).2.1 hordered hintegral hshallow
  obtain ⟨herror, hverdict, -⟩ := (reply_roundtrip 200 buriedReferral).2.2 hdeep
  exact ⟨⟨hvalue, (hhint _).mpr ⟨rfl, ⟨_, rfl, rfl⟩, rfl⟩⟩, herror, hverdict⟩

end Reply

end ClusterClient
