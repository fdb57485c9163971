import ClusterClient.Proofs.Members
import ClusterClient.Proofs.Parsing
import ClusterClient.Routing.Verdict

/-!
# What an outcome says

The verdict of an outcome, by the grammar of bodies. Status 200 and 503 alone do not tell whether
the next node is to be asked: the body does, and nothing in it but the last members of a few names.

* **`Reply.Lists`**, **`Reply.Bears`**: a body that is an object, and the mark that it may bear.
* **`Judged`**: the verdicts, with what they rest on.
* **`Verdict.judged`**, **`Judged.eq`**: an outcome is judged so, and in no other way.
* **`Verdict.classification`**: which outcomes are refusals, and what makes no difference.
-/

namespace ClusterClient

open Json

namespace Reply

/-- The body is one object, with its members in the order of the text. The object itself counts
towards the nesting that is allowed. -/
def Lists (r : Reply) (ms : List (String × Value)) : Prop :=
  ObjectText (nestingLimit - 1) r.body ms

/-- The body is an object whose last member of a name is the given text. -/
def Bears (r : Reply) (name text : String) : Prop :=
  ∃ ms, r.Lists ms ∧ Last ms name (.string text)

end Reply

/-- How outcomes are judged. -/
inductive Judged : Outcome → Verdict → Prop where
  | success {r : Reply} (status : r.status = 200)
      (unmarked : ¬ r.Bears "status" "redirect") : Judged (.ok r) .success
  | redirect {r : Reply} {ms : List (String × Value)} {leader : Option Nat}
      (status : r.status = 200) (object : r.Lists ms)
      (mark : Last ms "status" (.string "redirect"))
      (leader_iff : ∀ n : Nat, leader = some n ↔
        n < Nat.pow 2 64 ∧ Last ms "leader_id" (.number (.integer n))) :
      Judged (.ok r) (.redirect leader)
  | notLeader {r : Reply} {ms : List (String × Value)} {hint : Option String}
      (status : r.status = 503) (object : r.Lists ms)
      (mark : Last ms "error" (.string "Not Leader"))
      (hint_iff : ∀ s, hint = some s ↔ Last ms "hint" (.string s)) :
      Judged (.ok r) (.notLeader hint)
  | other {r : Reply} (status : r.status ≠ 200)
      (unmarked : r.status = 503 → ¬ r.Bears "error" "Not Leader") : Judged (.ok r) .other
  | unreachable {f : Failure} (unreachable : f.unreachable = true) :
      Judged (.error f) (.unreachable f.message)
  | failed {f : Failure} (reachable : f.unreachable = false) : Judged (.error f) .other

/-! ## The object of a body -/

namespace Reply

variable {r : Reply} {ms : List (String × Value)}

/-- The value of a body is the one that the grammar gives it. -/
theorem value_eq_ok_iff {v : Value} : r.value = .ok v ↔ Denotes nestingLimit r.body v :=
  decode_ofValue_iff

/-- A body that is an object by the grammar is one to the router. -/
theorem Lists.object? (h : r.Lists ms) : r.object? = some (.ofMembers ms) :=
  object?_eq_some_iff.mpr ⟨_, rfl, value_eq_ok_iff.mpr (ObjectText.denotes h)⟩

/-- **A body is an object exactly if the grammar says so.** -/
theorem object?_eq_some_iff_lists {v : Value} :
    r.object? = some v ↔ ∃ ms, r.Lists ms ∧ v = .ofMembers ms := by
  constructor
  · intro h
    obtain ⟨fields, hv, hvalue⟩ := object?_eq_some_iff.mp h
    obtain ⟨room, ms, hroom, hobject, hms⟩ :=
      objectText_of_denotes (value_eq_ok_iff.mp hvalue) hv
    obtain rfl : nestingLimit - 1 = room := congrArg (· - 1) hroom
    exact ⟨ms, hobject, hms⟩
  · rintro ⟨ms, hms, rfl⟩
    exact hms.object?

/-- The verdict sees the object of a body and nothing else of it. -/
theorem verdict_congr {r' : Reply} (hs : r.status = r'.status) (h : r.object? = r'.object?) :
    r.verdict = r'.verdict := by
  unfold verdict
  rw [hs, h]

end Reply

/-- The text of a name is that of its last member. -/
theorem Json.Value.textOf?_eq_some_iff {ms : List (String × Value)} {name text : String} :
    (Value.ofMembers ms).textOf? name = some text ↔ Last ms name (.string text) := by
  rw [← Value.get?_eq_some_iff, Value.textOf?, Option.bind_eq_some_iff]
  constructor
  · rintro ⟨v, hv, htext⟩
    cases v with
    | string s =>
      obtain rfl := Option.some.inj htext
      exact hv
    | null | bool | number | array | object => cases htext
  · exact fun h => ⟨_, h, rfl⟩

/-! ## What the members say -/

namespace Reply

variable {r : Reply} {v : Value} {ms : List (String × Value)} {name text : String}

/-- A mark is borne if the object that the router sees has it. -/
theorem bears_iff (h : r.object? = some v) : r.Bears name text ↔ v.textOf? name = some text := by
  constructor
  · rintro ⟨ms, hms, hlast⟩
    obtain rfl : v = .ofMembers ms := Option.some.inj (h.symm.trans hms.object?)
    exact Value.textOf?_eq_some_iff.mpr hlast
  · intro htext
    obtain ⟨ms, hms, rfl⟩ := object?_eq_some_iff_lists.mp h
    exact ⟨ms, hms, Value.textOf?_eq_some_iff.mp htext⟩

/-- What is no object to the router bears no mark. -/
theorem not_bears (h : r.object? = none) : ¬ r.Bears name text := by
  rintro ⟨ms, hms, -⟩
  exact absurd (h.symm.trans hms.object?) nofun

/-- A natural number that a member has fits into 64 bits, since otherwise it is read as a double. -/
theorem Lists.natural_lt (h : r.Lists ms) {n : Nat} (hlast : Last ms name (.number (.integer n))) :
    n < Nat.pow 2 64 := by
  obtain ⟨ws, inner, ws', es, -, -, -, -, -, values, rfl⟩ := h
  obtain ⟨before, after, heq, -⟩ := hlast
  have hmem : (name, Value.number (.integer n)) ∈ es.map Entry.member := by simp [heq]
  obtain ⟨e, he, hmember⟩ := List.mem_map.mp hmem
  have hvalue : e.value = .number (.integer n) := congrArg Prod.snd hmember
  obtain ⟨-, -, -, -, -, -, -, -, -, hlt⟩ := denotes_natural_iff.mp (hvalue ▸ values e he)
  exact hlt

/-- The number of the leader, as the members give it. -/
theorem Lists.leader_iff (h : r.Lists ms) {n : Nat} :
    ((Value.ofMembers ms).get? "leader_id").bind Value.natural? = some n ↔
      n < Nat.pow 2 64 ∧ Last ms "leader_id" (.number (.integer n)) := by
  rw [Option.bind_eq_some_iff]
  constructor
  · rintro ⟨v, hv, hn⟩
    obtain rfl : v = .number (.integer n) := by
      unfold Value.natural? at hn
      split at hn
      · next i =>
        split at hn
        · obtain rfl := Option.some.inj hn
          congr 2
          omega
        · cases hn
      · cases hn
    have hlast := Value.get?_eq_some_iff.mp hv
    exact ⟨h.natural_lt hlast, hlast⟩
  · exact fun h => ⟨_, Value.get?_eq_some_iff.mpr h.2, by simp [Value.natural?]⟩

/-! ## Verdicts -/

/-- The verdict of a reply rests on what `Judged` asks for it. -/
theorem judged (r : Reply) : Judged (.ok r) r.verdict := by
  unfold verdict
  split
  · next hs =>
    split
    · next v hv =>
      split
      · next hmark =>
        -- the members of the grammar are those that the router looked up
        obtain ⟨ms, hms, rfl⟩ := object?_eq_some_iff_lists.mp hv
        exact .redirect hs hms (Value.textOf?_eq_some_iff.mp hmark) fun n => hms.leader_iff
      · next hmark => exact .success hs (mt (bears_iff hv).mp hmark)
    · next hnone => exact .success hs (not_bears hnone)
  · next hs =>
    split
    · next hunavailable =>
      split
      · next v hv =>
        split
        · next hmark =>
          obtain ⟨ms, hms, rfl⟩ := object?_eq_some_iff_lists.mp hv
          exact .notLeader hunavailable hms (Value.textOf?_eq_some_iff.mp hmark) fun s =>
            Value.textOf?_eq_some_iff
        · next hmark => exact .other hs fun _ => mt (bears_iff hv).mp hmark
      · next hnone => exact .other hs fun _ => not_bears hnone
    · next havailable => exact .other hs fun hunavailable => absurd hunavailable havailable

end Reply

namespace Verdict

/-- Every outcome is judged as `Judged` says, a failed attempt by whether the node was reached. -/
theorem judged (o : Outcome) : Judged o (ofOutcome o) := by
  cases o with
  | ok r => exact r.judged
  | error f =>
    -- only a node that was not reached refuses by failing
    unfold ofOutcome
    dsimp only
    split
    · next hunreachable => exact .unreachable hunreachable
    · next hreachable => exact .failed (by simpa using hreachable)

end Verdict

/-- An outcome is judged in one way only. -/
theorem Judged.eq {o : Outcome} {v : Verdict} (h : Judged o v) : Verdict.ofOutcome o = v := by
  cases h with
  | @success r status unmarked =>
    show r.verdict = _
    unfold Reply.verdict
    rw [if_pos status]
    -- without an object there is no mark to be found either
    cases hv : r.object? with
    | none => rfl
    | some v => exact if_neg (mt (Reply.bears_iff hv).mpr unmarked)
  | @redirect r ms leader status object mark leader_iff =>
    show r.verdict = _
    unfold Reply.verdict
    rw [if_pos status, object.object?]
    have hmark : (Value.ofMembers ms).textOf? "status" = some redirectStatus :=
      Value.textOf?_eq_some_iff.mpr mark
    dsimp only
    rw [if_pos hmark]
    congr 1
    -- the leader is the number that the members give
    exact Option.ext fun n => object.leader_iff.trans (leader_iff n).symm
  | @notLeader r ms hint status object mark hint_iff =>
    show r.verdict = _
    unfold Reply.verdict
    rw [if_neg (by omega), if_pos status, object.object?]
    have hmark : (Value.ofMembers ms).textOf? "error" = some notLeaderError :=
      Value.textOf?_eq_some_iff.mpr mark
    dsimp only
    rw [if_pos hmark]
    congr 1
    exact Option.ext fun s => Value.textOf?_eq_some_iff.trans (hint_iff s).symm
  | @other r status unmarked =>
    show r.verdict = _
    unfold Reply.verdict
    rw [if_neg status]
    split
    · next hunavailable =>
      cases hv : r.object? with
      | none => rfl
      | some v => exact if_neg (mt (Reply.bears_iff hv).mpr (unmarked hunavailable))
    · rfl
  | unreachable unreachable => simp [Verdict.ofOutcome, unreachable]
  | failed reachable => simp [Verdict.ofOutcome, reachable]

namespace Verdict

/-- **What is a refusal**, by the cases of a verdict. -/
theorem isRetryable_iff {o : Outcome} :
    (ofOutcome o).isRetryable = true ↔
      (∃ f, o = .error f ∧ f.unreachable = true) ∨
      (∃ r, o = .ok r ∧ r.status = 200 ∧ r.Bears "status" "redirect") ∨
      ∃ r, o = .ok r ∧ r.status = 503 ∧ r.Bears "error" "Not Leader" := by
  have hjudged := judged o
  generalize ofOutcome o = v at hjudged
  cases hjudged with
  | success status unmarked => simp [isRetryable, status, unmarked]
  | redirect status object mark =>
    refine iff_of_true rfl (.inr (.inl ⟨_, rfl, status, _, object, mark⟩))
  | notLeader status object mark =>
    refine iff_of_true rfl (.inr (.inr ⟨_, rfl, status, _, object, mark⟩))
  | other status unmarked => simpa [isRetryable, status] using unmarked
  | unreachable unreachable => exact iff_of_true rfl (.inl ⟨_, rfl, unreachable⟩)
  | failed reachable => simp [isRetryable, reachable]

/-- **What an outcome says.** An outcome is judged in one way, and what makes it a refusal is one of
three things: the node was not reached, or a reply with status 200 or 503 is an object that bears
the mark of that status. A body that denotes no object bears none. Beyond the status, a reply is
judged by the value that its body denotes, and of an object by the last members of its names. -/
theorem classification :
    (∀ o v, ofOutcome o = v ↔ Judged o v) ∧
    (∀ o, (ofOutcome o).isRetryable = true ↔
      (∃ f, o = .error f ∧ f.unreachable = true) ∨
      (∃ r, o = .ok r ∧ r.status = 200 ∧ r.Bears "status" "redirect") ∨
      ∃ r, o = .ok r ∧ r.status = 503 ∧ r.Bears "error" "Not Leader") ∧
    (∀ r : Reply, (∀ fields, ¬ Denotes nestingLimit r.body (.object fields)) →
      ofOutcome (.ok r) = if r.status = 200 then .success else .other) ∧
    (∀ r r' : Reply, r.status = r'.status →
      (∀ v, Denotes nestingLimit r.body v ↔ Denotes nestingLimit r'.body v) →
      ofOutcome (.ok r) = ofOutcome (.ok r')) ∧
    ∀ (r r' : Reply) (ms ms' : List (String × Value)), r.status = r'.status → r.Lists ms →
      r'.Lists ms' → (∀ name v, Last ms name v ↔ Last ms' name v) →
      ofOutcome (.ok r) = ofOutcome (.ok r') := by
  refine ⟨fun o v => ⟨?_, Judged.eq⟩, fun o => isRetryable_iff, fun r hnone => ?_,
    fun r r' hs hvalues => ?_, fun r r' ms ms' hs hms hms' hlast => ?_⟩
  · rintro rfl
    exact judged o
  · have hobject : r.object? = none :=
      Reply.object?_eq_none_iff.mpr fun ms => mt Reply.value_eq_ok_iff.mp (hnone ms)
    split
    · next hs => exact (Judged.success hs (Reply.not_bears hobject)).eq
    · next hs => exact (Judged.other hs fun _ => Reply.not_bears hobject).eq
  · refine Reply.verdict_congr hs (Option.ext fun v => ?_)
    simp only [Reply.object?_eq_some_iff, Reply.value_eq_ok_iff, hvalues]
  · refine Reply.verdict_congr hs ?_
    rw [hms.object?, hms'.object?, Value.ofMembers_eq_iff.mpr hlast]

/-- A referral whose mark is escaped and overrides another one. -/
def overridden : Reply :=
  ⟨200, Utf8.encode ("\x7b\"status\":\"stored\", \"leader_id\":7, \"peers\":[[]]," ++
    "\"st\\u0061tus\":\"redirect\"\x7d")⟩

/-- The last `status` is the one that counts, and the number of the leader is given along. -/
theorem judged_overridden : Judged (.ok overridden) (.redirect (some 7)) := by
  have hverdict : ofOutcome (.ok overridden) = .redirect (some 7) := by decide +kernel
  exact (classification.1 _ _).mp hverdict

end Verdict

end ClusterClient
