import ClusterClient.Http.Message

/-!
# Verdicts

What the outcome of an attempt says about the node that was asked. A follower marks its refusal
in the body of its reply; only a whole, well-formed body whose object bears the mark counts.
-/

namespace ClusterClient

open Json

/-- The `status` of a follower that refers to its leader, with HTTP status 200. -/
def redirectStatus : String := "redirect"

/-- The `error` of a node that is not the leader, with HTTP status 503. -/
def notLeaderError : String := "Not Leader"

/-- What an outcome says about the node. -/
inductive Verdict where
  /-- HTTP status 200 without the mark of a referral. -/
  | success
  /-- A referral, with the leader's number if the node gives one. -/
  | redirect (leader : Option Nat)
  /-- The node is not the leader; it may give a hint who is. -/
  | notLeader (hint : Option String)
  /-- The node was not reached. -/
  | unreachable (reason : String)
  /-- Anything else. -/
  | other
  deriving DecidableEq, Repr

namespace Reply

/-- The object that the body is, if it is one. -/
def object? (r : Reply) : Option Value :=
  match r.value with
  | .ok (.object ms) => some (.object ms)
  | _ => none

/-- The object of a body is its value, if that is an object. -/
theorem object?_eq_some_iff {r : Reply} {v : Value} :
    r.object? = some v ↔ ∃ ms, v = .object ms ∧ r.value = .ok v := by
  unfold object?
  constructor
  · intro h
    split at h
    · next ms hms =>
      cases h
      exact ⟨ms, rfl, hms⟩
    · cases h
  · rintro ⟨ms, rfl, hms⟩
    rw [hms]

/-- There is none where the value is no object, or where there is no value. -/
theorem object?_eq_none_iff {r : Reply} :
    r.object? = none ↔ ∀ ms, r.value ≠ .ok (.object ms) := by
  constructor
  · intro h ms hms
    have hsome := object?_eq_some_iff.mpr ⟨ms, rfl, hms⟩
    cases h.symm.trans hsome
  · intro h
    cases hobject : r.object? with
    | none => rfl
    | some v =>
      obtain ⟨ms, rfl, hms⟩ := object?_eq_some_iff.mp hobject
      exact absurd hms (h ms)

/-- What a reply says about the node. -/
def verdict (r : Reply) : Verdict :=
  if r.status = 200 then
    match r.object? with
    | some v =>
      if v.textOf? "status" = some redirectStatus then
        .redirect ((v.get? "leader_id").bind Value.natural?)
      else .success
    | none => .success
  else if r.status = 503 then
    match r.object? with
    | some v =>
      if v.textOf? "error" = some notLeaderError then .notLeader (v.textOf? "hint") else .other
    | none => .other
  else .other

end Reply

namespace Verdict

/-- What an outcome says about the node. -/
def ofOutcome : Outcome → Verdict
  | .ok r => r.verdict
  | .error f => if f.unreachable then .unreachable f.message else .other

/-- Whether the next node should be tried. -/
def isRetryable : Verdict → Bool
  | .redirect _ | .notLeader _ | .unreachable _ => true
  | .success | .other => false

end Verdict

end ClusterClient
