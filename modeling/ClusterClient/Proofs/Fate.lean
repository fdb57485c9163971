import ClusterClient.Proofs.Course

/-!
# The fate of a call

How many attempts a call makes and what it gives back depends on the outcomes of its own attempts
and on nothing else: not on where the pointer was, and not on what other calls did meanwhile.

* **`Fate`**: the two ways in which a call that nobody cancels can end, by the outcomes that it has
  heard.
* **`Course.fate`**: a call on its course meets its fate.
* **`Settlement`**: what the caller is given, by the last outcome: the exhausted cluster, a failure
  of the transport, a refusal by the cluster's application, or what the body decodes to.
-/

namespace ClusterClient

/-! ## Verdicts on replies -/

namespace Reply

/-- Only status 200 is a referral. -/
theorem status_of_redirect {r : Reply} {leader : Option Nat} (h : r.verdict = .redirect leader) :
    r.status = 200 := by
  unfold verdict at h
  split at h
  · next hs => exact hs
  · split at h
    · split at h
      · split at h <;> cases h
      · cases h
    · cases h

/-- Only status 503 is a node that does not lead. -/
theorem status_of_notLeader {r : Reply} {hint : Option String}
    (h : r.verdict = .notLeader hint) : r.status = 503 := by
  unfold verdict at h
  split at h
  · split at h
    · split at h <;> cases h
    · cases h
  · split at h
    · next hs => exact hs
    · cases h

/-- A node that replies has been reached. -/
theorem verdict_ne_unreachable (r : Reply) (reason : String) :
    r.verdict ≠ .unreachable reason := by
  unfold verdict
  split
  · split
    · split <;> exact fun h => by cases h
    · exact fun h => by cases h
  · split
    · split
      · split <;> exact fun h => by cases h
      · exact fun h => by cases h
    · exact fun h => by cases h

/-- A reply is a refusal if it is a marked referral or a marked rejection. -/
theorem isRefusal_iff (r : Reply) : Outcome.isRefusal (.ok r) = true ↔
    (∃ leader, r.verdict = .redirect leader) ∨ ∃ hint, r.verdict = .notLeader hint := by
  show r.verdict.isRetryable = true ↔ _
  cases h : r.verdict with
  | unreachable reason => exact absurd h (r.verdict_ne_unreachable reason)
  | success | redirect | notLeader | other => simp [Verdict.isRetryable]

/-- Among the successful statuses only a referral is a refusal. -/
theorem isRefusal_iff_of_success {r : Reply} (hr : r.isSuccess = true) :
    Outcome.isRefusal (.ok r) = true ↔ ∃ leader, r.verdict = .redirect leader := by
  rw [isRefusal_iff]
  refine or_iff_left ?_
  rintro ⟨hint, hv⟩
  have := status_of_notLeader hv
  simp [isSuccess, this] at hr

/-- Among the others only a node that does not lead refuses. -/
theorem isRefusal_iff_of_not_success {r : Reply} (hr : r.isSuccess = false) :
    Outcome.isRefusal (.ok r) = true ↔ ∃ hint, r.verdict = .notLeader hint := by
  rw [isRefusal_iff]
  refine or_iff_right ?_
  rintro ⟨leader, hv⟩
  have := status_of_redirect hv
  simp [isSuccess, this] at hr

end Reply

/-- A failed attempt is a refusal exactly if the node was not reached. -/
theorem Failure.isRefusal_eq (f : Failure) : Outcome.isRefusal (.error f) = f.unreachable := by
  cases h : f.unreachable <;> simp [Outcome.isRefusal, Verdict.ofOutcome, Verdict.isRetryable, h]

/-- A fault that an outcome ends in is one of the transport. -/
theorem Outcome.transport_of_mapError {o : Outcome} {f : Fault}
    (h : o.mapError Fault.transport = .error f) : ∃ e, f = .transport e := by
  cases o with
  | ok reply => cases h
  | error e => exact ⟨e, (Except.error.inj h).symm⟩

/-! ## What a reply means -/

/-- What an operation reads in the body of a reply, whatever the status. -/
def Operation.read (body : List UInt8) : Operation → Except Json.Problem Answer
  | .store _ => (Json.decode Receipt.decoder body).map .receipt
  | .search _ => (Json.decode Findings.decoder body).map .findings
  | .erase _ => (Json.decode Json.Decoder.ofValue body).map .acknowledgement
  | .backlog => (Json.decode Backlog.decoder body).map .backlog

/-- A reply of success is decoded. -/
theorem Operation.answer_of_success {r : Reply} (hr : r.isSuccess = true) (o : Operation) :
    o.answer r = (o.read r.body).mapError Fault.decoding := by
  cases o <;> simp only [answer, read, Reply.accept, hr, if_true] <;>
    cases Json.decode _ r.body <;> rfl

/-- Any other reply is reported with its complaint. -/
theorem Operation.answer_of_not_success {r : Reply} (hr : r.isSuccess = false) (o : Operation) :
    o.answer r = .error (.api r.status r.complaint) := by
  cases o <;> simp only [answer, Reply.accept, hr] <;> rfl

/-- An operation reports the status of a reply exactly when it is not one of success. -/
theorem Operation.answer_eq_api_iff {o : Operation} {r : Reply} {status : Nat} {detail : String} :
    o.answer r = .error (.api status detail) ↔
      r.isSuccess = false ∧ r.status = status ∧ r.complaint = detail := by
  cases hr : r.isSuccess with
  | true =>
    have hne : o.answer r ≠ .error (.api status detail) := by
      rw [o.answer_of_success hr]
      cases o.read r.body <;> exact fun h => by cases h
    exact ⟨fun h => absurd h hne, fun h => by cases h.1⟩
  | false =>
    rw [o.answer_of_not_success hr]
    constructor
    · intro h
      cases h
      exact ⟨rfl, rfl, rfl⟩
    · rintro ⟨-, rfl, rfl⟩
      rfl

/-- The faults that a reply can mean. None of them is one of the routing. -/
theorem Purpose.conclude_ok_error {p : Purpose} {r : Reply} {f : Fault}
    (h : p.conclude (.ok r) = .error f) :
    (∃ e, f = .decoding e) ∨ f = .api r.status r.complaint := by
  cases p with
  | plain d => cases h
  | operation o =>
    have h : o.answer r = .error f := h
    cases hr : r.isSuccess with
    | true =>
      rw [o.answer_of_success hr] at h
      cases hread : o.read r.body with
      | ok a =>
        rw [hread] at h
        cases h
      | error e =>
        rw [hread] at h
        cases h
        exact .inl ⟨e, rfl⟩
    | false =>
      rw [o.answer_of_not_success hr] at h
      cases h
      exact .inr rfl

/-- Only a call that ends so is unreachable to its caller. -/
theorem Purpose.result_of_unreachable {p : Purpose} {result : Except Fault Reply}
    {attempts nodes : Nat}
    (h : p.conclude result = .error (.clusterUnreachable attempts nodes)) :
    result = .error (.clusterUnreachable attempts nodes) := by
  cases result with
  | ok r => rcases Purpose.conclude_ok_error h with ⟨e, he⟩ | he <;> cases he
  | error f =>
    have h : (.error f : Except Fault Answer) = .error (.clusterUnreachable attempts nodes) := h
    cases h
    rfl

/-! ## The two ways to end -/

/-- How a call that nobody cancels ends on a roster of `size` nodes, by what it has heard. -/
inductive Fate (size : Nat) (outcomes : List Outcome) : Except Fault Reply → Prop where
  /-- Every attempt of the budget was refused. -/
  | exhausted (refused : ∀ o ∈ outcomes, o.isRefusal = true)
      (spent : outcomes.length = size + 1) :
      Fate size outcomes (.error (.clusterUnreachable (size + 1) size))
  /-- All attempts but the last were refused, and its outcome is given back. -/
  | concluded {before : List Outcome} {last : Outcome} (eq : outcomes = before ++ [last])
      (refused : ∀ o ∈ before, o.isRefusal = true) (final : last.isRefusal = false)
      (within : before.length ≤ size) :
      Fate size outcomes (last.mapError Fault.transport)

/-- **A call on its course meets its fate**, having sent an attempt for each outcome, unless its
caller has given up. -/
theorem Course.fate {size : Nat} {cancelled : Bool} {heard : List Hearing} {targets : List Nat}
    {result : Except Fault Reply} (h : Course size cancelled heard targets (.ended result))
    (hc : cancelled = false ∨ ∀ k, result ≠ .error (.cancelled k)) :
    Fate size (heard.map Hearing.outcome) result ∧ targets = heard.map Hearing.target := by
  cases h with
  | exhausted refused asked spent =>
    refine ⟨.exhausted ?_ (by simpa using spent), asked⟩
    intro o ho
    obtain ⟨h, hmem, rfl⟩ := List.mem_map.mp ho
    exact refused h hmem
  | @concluded before last heard_eq refused final asked within =>
    have hmap : heard.map Hearing.outcome = before.map Hearing.outcome ++ [last.outcome] := by
      simp [heard_eq]
    refine ⟨.concluded hmap ?_ final (by simpa using within), asked⟩
    intro o ho
    obtain ⟨h, hmem, rfl⟩ := List.mem_map.mp ho
    exact refused h hmem
  | withdrawn fired | interrupted fired =>
    rcases hc with hc | hc
    · rw [fired] at hc
      cases hc
    · exact absurd rfl (hc _)

namespace Fate

variable {size : Nat} {outcomes : List Outcome} {result : Except Fault Reply}

/-- The outcomes of a call leave it one result. -/
theorem unique {result' : Except Fault Reply} (h : Fate size outcomes result)
    (h' : Fate size outcomes result') : result = result' := by
  cases h with
  | exhausted refused =>
    cases h' with
    | exhausted => rfl
    | concluded eq _ final =>
      rw [refused _ (by simp [eq])] at final
      cases final
  | concluded eq _ final =>
    cases h' with
    | exhausted refused' =>
      rw [refused' _ (by simp [eq])] at final
      cases final
    | concluded eq' =>
      have hlast := congrArg List.getLast? (eq.symm.trans eq')
      rw [List.getLast?_concat, List.getLast?_concat] at hlast
      rw [Option.some.inj hlast]

end Fate

/-! ## What the caller is given -/

/-- What the caller of a call is given on a roster of `size` nodes, by the outcomes that the call
has heard. -/
structure Settlement (size : Nat) (purpose : Purpose) (outcomes : List Outcome)
    (answer : Except Fault Answer) : Prop where
  /-- All outcomes but the last are refusals. -/
  refused : ∀ o ∈ outcomes.dropLast, o.isRefusal = true
  /-- The cluster is reported unreachable when the whole budget has been refused. -/
  unreachable : ∀ attempts nodes, answer = .error (.clusterUnreachable attempts nodes) ↔
    attempts = size + 1 ∧ nodes = size ∧ outcomes.length = size + 1 ∧
      ∀ o ∈ outcomes, o.isRefusal = true
  /-- A failure is given back when it was the last outcome and the node was reached. -/
  transport : ∀ f, answer = .error (.transport f) ↔
    outcomes.getLast? = some (.error f) ∧ f.unreachable = false
  /-- An operation reports the status of a reply without success that is no marked rejection. -/
  api : ∀ o, purpose = .operation o → ∀ status detail,
    answer = .error (.api status detail) ↔
      ∃ r, outcomes.getLast? = some (.ok r) ∧ r.status = status ∧ r.complaint = detail ∧
        r.isSuccess = false ∧ ∀ hint, r.verdict ≠ .notLeader hint
  /-- An operation decodes the body of a reply with success that is no marked referral, … -/
  decoded : ∀ o, purpose = .operation o → ∀ r, outcomes.getLast? = some (.ok r) →
    r.isSuccess = true → (∀ leader, r.verdict ≠ .redirect leader) →
      answer = (o.read r.body).mapError Fault.decoding
  /-- … and gives a value or a problem of decoding for no other reason. -/
  decoded_only : ∀ o, purpose = .operation o →
    (∃ a, answer = .ok a) ∨ (∃ e, answer = .error (.decoding e)) →
      ∃ r, outcomes.getLast? = some (.ok r) ∧ r.isSuccess = true ∧
        ∀ leader, r.verdict ≠ .redirect leader
  /-- A request of the caller's own gives back the last reply as it came. -/
  plain : ∀ d, purpose = .plain d → ∀ r, answer = .ok (.reply r) ↔
    outcomes.getLast? = some (.ok r) ∧ Outcome.isRefusal (.ok r) = false

namespace Settlement

variable {size : Nat} {outcomes : List Outcome} {p : Purpose}

/-- When the whole budget has been refused. -/
theorem of_exhausted (hrefused : ∀ o ∈ outcomes, o.isRefusal = true)
    (hspent : outcomes.length = size + 1) :
    Settlement size p outcomes (.error (.clusterUnreachable (size + 1) size)) := by
  -- the last outcome is not final, so what the other clauses say of a final one fails
  have hlast : ∀ o, outcomes.getLast? = some o → o.isRefusal = true :=
    fun o ho => hrefused o (List.mem_of_getLast? ho)
  constructor
  case refused =>
    intro o ho
    exact hrefused o ((List.dropLast_sublist _).subset ho)
  case unreachable =>
    intro attempts nodes
    constructor
    · intro h
      cases h
      exact ⟨rfl, rfl, hspent, hrefused⟩
    · rintro ⟨rfl, rfl, -, -⟩
      rfl
  case transport =>
    intro f
    refine ⟨fun h => (by cases h), ?_⟩
    rintro ⟨hf, hreached⟩
    have hrefusal := hlast _ hf
    rw [Failure.isRefusal_eq, hreached] at hrefusal
    cases hrefusal
  case api =>
    intro o _ status detail
    refine ⟨fun h => (by cases h), ?_⟩
    rintro ⟨r, hr, -, -, hfailed, hmark⟩
    obtain ⟨hint, hv⟩ := (Reply.isRefusal_iff_of_not_success hfailed).mp (hlast _ hr)
    exact absurd hv (hmark hint)
  case decoded =>
    intro o _ r hr hsuccess hmark
    obtain ⟨leader, hv⟩ := (Reply.isRefusal_iff_of_success hsuccess).mp (hlast _ hr)
    exact absurd hv (hmark leader)
  case decoded_only =>
    rintro o - (⟨a, h⟩ | ⟨e, h⟩) <;> cases h
  case plain =>
    intro d _ r
    refine ⟨fun h => (by cases h), ?_⟩
    rintro ⟨hr, hfinal⟩
    rw [hlast _ hr] at hfinal
    cases hfinal

variable {before : List Outcome}

/-- When the last attempt failed at a node that was reached. -/
theorem of_failure (hrefused : ∀ o ∈ before, o.isRefusal = true) {f : Failure}
    (hreached : f.unreachable = false) :
    Settlement size p (before ++ [.error f]) (.error (.transport f)) := by
  have hlast : (before ++ [Except.error f]).getLast? = some (.error f : Outcome) :=
    List.getLast?_concat
  constructor
  case refused => simpa using hrefused
  case unreachable =>
    intro attempts nodes
    refine ⟨fun h => (by cases h), ?_⟩
    rintro ⟨-, -, -, hall⟩
    have hrefusal := hall (.error f) (by simp)
    -- a node that was reached has not refused
    rw [Failure.isRefusal_eq, hreached] at hrefusal
    cases hrefusal
  case transport =>
    intro g
    rw [hlast]
    constructor
    · intro h
      cases h
      exact ⟨rfl, hreached⟩
    · rintro ⟨h, -⟩
      cases h
      rfl
  case api =>
    intro o _ status detail
    rw [hlast]
    refine ⟨fun h => (by cases h), ?_⟩
    rintro ⟨r, hr, -⟩
    cases hr
  case decoded =>
    intro o _ r hr
    rw [hlast] at hr
    cases hr
  case decoded_only =>
    rintro o - (⟨a, h⟩ | ⟨e, h⟩) <;> cases h
  case plain =>
    intro d _ r
    rw [hlast]
    refine ⟨fun h => (by cases h), ?_⟩
    rintro ⟨hr, -⟩
    cases hr

/-- When the last reply is final. -/
theorem of_reply (hrefused : ∀ o ∈ before, o.isRefusal = true) {r : Reply}
    (hfinal : Outcome.isRefusal (.ok r) = false) :
    Settlement size p (before ++ [.ok r]) (p.conclude (.ok r)) := by
  have hlast : (before ++ [Except.ok r]).getLast? = some (.ok r : Outcome) :=
    List.getLast?_concat
  constructor
  case refused => simpa using hrefused
  case unreachable =>
    intro attempts nodes
    constructor
    · intro h
      rcases Purpose.conclude_ok_error h with ⟨e, he⟩ | he <;> cases he
    · rintro ⟨-, -, -, hall⟩
      rw [hall (.ok r) (by simp)] at hfinal
      cases hfinal
  case transport =>
    intro f
    rw [hlast]
    constructor
    · intro h
      rcases Purpose.conclude_ok_error h with ⟨e, he⟩ | he <;> cases he
    · rintro ⟨h, -⟩
      cases h
  case api =>
    rintro o rfl status detail
    rw [hlast]
    show o.answer r = _ ↔ _
    rw [Operation.answer_eq_api_iff]
    constructor
    · rintro ⟨hfailed, rfl, rfl⟩
      refine ⟨r, rfl, rfl, rfl, hfailed, ?_⟩
      intro hint hv
      rw [(Reply.isRefusal_iff_of_not_success hfailed).mpr ⟨hint, hv⟩] at hfinal
      cases hfinal
    · rintro ⟨r', hr, rfl, rfl, hfailed, -⟩
      cases hr
      exact ⟨hfailed, rfl, rfl⟩
  case decoded =>
    rintro o rfl r' hr hsuccess -
    rw [hlast] at hr
    cases hr
    exact o.answer_of_success hsuccess
  case decoded_only =>
    rintro o rfl h
    cases hsuccess : r.isSuccess with
    | true =>
      refine ⟨r, hlast, hsuccess, ?_⟩
      intro leader hv
      rw [(Reply.isRefusal_iff_of_success hsuccess).mpr ⟨leader, hv⟩] at hfinal
      cases hfinal
    | false =>
      -- any other status is reported, not decoded
      have hanswer : (Purpose.operation o).conclude (.ok r) = _ := o.answer_of_not_success hsuccess
      rw [hanswer] at h
      rcases h with ⟨a, h⟩ | ⟨e, h⟩ <;> cases h
  case plain =>
    rintro d rfl r'
    rw [hlast]
    constructor
    · intro h
      cases h
      exact ⟨rfl, hfinal⟩
    · rintro ⟨h, -⟩
      cases h
      rfl

end Settlement

/-- **A fate settles what the caller is given.** -/
theorem Fate.settlement {size : Nat} {outcomes : List Outcome} {result : Except Fault Reply}
    (h : Fate size outcomes result) (p : Purpose) :
    Settlement size p outcomes (p.conclude result) := by
  cases h with
  | exhausted refused spent => exact .of_exhausted refused spent
  | @concluded before last eq refused final within =>
    subst eq
    cases last with
    | ok r => exact .of_reply refused final
    | error f => exact .of_failure refused (by rwa [Failure.isRefusal_eq] at final)

/-! ## Calls among others -/

namespace World

/-- The outcomes of which a call takes note along a schedule. -/
def outcomes (w : World) (q : Nat) (acts : List Act) : List Outcome :=
  (w.heardBy q acts).map Hearing.outcome

theorem outcomes_append (w : World) (q : Nat) (as bs : List Act) :
    w.outcomes q (as ++ bs) = w.outcomes q as ++ (w.exec as).outcomes q bs := by
  simp only [outcomes, heardBy, hearings_append, List.filter_append, List.map_append]

/-- A schedule starts a call, and the call ends in it without being cancelled. -/
structure Finishes (w : World) (acts : List Act) (q : Nat) (job : Job)
    (result : Except Fault Reply) : Prop where
  new : w.jobs.length ≤ q
  found : (w.exec acts).jobs[q]? = some job
  ended : job.call.phase = .ended result
  /-- Its token has not fired, or has done so to no effect. -/
  uncancelled : (w.exec acts).isCancelled job.call = false ∨
    ∀ k, result ≠ .error (.cancelled k)

/-- **A call that finishes meets its fate**, whatever else a schedule does. -/
theorem Finishes.fate {w : World} (hw : w.WellFormed) {acts : List Act} {q : Nat} {job : Job}
    {result : Except Fault Reply} (h : w.Finishes acts q job result) :
    ∃ r, (w.exec acts).router? job.router = some r ∧
      Fate r.roster.size (w.outcomes q acts) result ∧
      (w.exec acts).targets q = (w.heardBy q acts).map Hearing.target := by
  obtain ⟨r, hr, hcourse⟩ := course_exec hw h.new acts h.found
  rw [h.ended] at hcourse
  exact ⟨r, hr, hcourse.fate h.uncancelled⟩

/-- A call that has finished has heard of everything that it sent. -/
theorem Finishes.sendings_length {w : World} (hw : w.WellFormed) {acts : List Act} {q : Nat}
    {job : Job} {result : Except Fault Reply} (h : w.Finishes acts q job result) :
    ((w.exec acts).sendings q).length = (w.outcomes q acts).length := by
  obtain ⟨r, -, -, htargets⟩ := h.fate hw
  have := congrArg List.length htargets
  simpa [targets, outcomes] using this

/-- **A call's fate depends on its own outcomes only.** In any schedule from any well-formed world,
a call that finishes has sent one attempt for each outcome, and what its caller is given is settled
by the outcomes. In any two such schedules, calls for the same purpose on as many nodes that have
met the same outcomes have sent as many attempts, and their callers are given the same. -/
theorem fate_of_own_outcomes {w : World} (hw : w.WellFormed) {acts : List Act} {q : Nat}
    {job : Job} {result : Except Fault Reply} (h : w.Finishes acts q job result) :
    ∃ r, (w.exec acts).router? job.router = some r ∧
      ((w.exec acts).sendings q).length = (w.outcomes q acts).length ∧
      Settlement r.roster.size job.purpose (w.outcomes q acts) (job.purpose.conclude result) ∧
      ∀ (w' : World) (acts' : List Act) (q' : Nat) (job' : Job) (result' : Except Fault Reply)
        (r' : Router), w'.WellFormed → w'.Finishes acts' q' job' result' →
        (w'.exec acts').router? job'.router = some r' → r'.roster.size = r.roster.size →
        job'.purpose = job.purpose → w'.outcomes q' acts' = w.outcomes q acts →
          ((w'.exec acts').sendings q').length = ((w.exec acts).sendings q).length ∧
          job'.purpose.conclude result' = job.purpose.conclude result := by
  obtain ⟨r, hr, hfate, -⟩ := h.fate hw
  refine ⟨r, hr, h.sendings_length hw, hfate.settlement job.purpose, ?_⟩
  intro w' acts' q' job' result' r' hw' h' hr' hsize hpurpose houtcomes
  obtain ⟨r'', hr'', hfate', -⟩ := h'.fate hw'
  obtain rfl : r'' = r' := Option.some.inj (hr''.symm.trans hr')
  constructor
  · rw [h'.sendings_length hw', h.sendings_length hw, houtcomes]
  · rw [hsize, houtcomes] at hfate'
    rw [hpurpose, hfate'.unique hfate]

/-- A call and another one that overtakes it. -/
def overtaken : List Act :=
  [.start "x" ⟨0, .nil⟩ (.operation .backlog) none [.refusal, .broken],
    .start "y" ⟨0, .nil⟩ (.operation .backlog) none [.refusal, .broken],
    .work 0, .work 1, .work 1, .work 1, .work 0, .work 0, .work 0]

/-- The same call without the other one. -/
def undisturbed : List Act :=
  [.start "x" ⟨0, .nil⟩ (.operation .backlog) none [.refusal, .broken],
    .work 0, .work 0, .work 0, .work 0]

/-- The call that is overtaken and the one that is not have the same fate, though their attempts go
to other places. -/
theorem fate_of_overtaken : ∃ (job job' : Job) (result result' : Except Fault Reply),
    (pair 0).Finishes overtaken 0 job result ∧ (pair 1).Finishes undisturbed 0 job' result' ∧
      ((pair 0).exec overtaken).targets 0 = [0, 1] ∧
      ((pair 1).exec undisturbed).targets 0 = [1, 0] ∧
      Settlement 2 job.purpose ((pair 0).outcomes 0 overtaken) (job.purpose.conclude result) ∧
      job'.purpose.conclude result' = job.purpose.conclude result := by
  have hfirst : ∃ job result, (pair 0).Finishes overtaken 0 job result ∧
      job.purpose = .operation .backlog ∧ job.router = 0 :=
    ⟨_, _, ⟨Nat.zero_le _, rfl, rfl, .inl rfl⟩, rfl, rfl⟩
  have hsecond : ∃ job result, (pair 1).Finishes undisturbed 0 job result ∧
      job.purpose = .operation .backlog ∧ job.router = 0 :=
    ⟨_, _, ⟨Nat.zero_le _, rfl, rfl, .inl rfl⟩, rfl, rfl⟩
  obtain ⟨job, result, h, hpurpose, hrouter⟩ := hfirst
  obtain ⟨job', result', h', hpurpose', hrouter'⟩ := hsecond
  obtain ⟨r, hr, -, hsettled, hsame⟩ := fate_of_own_outcomes (.pair (by decide)) h
  have hpair : ((pair 0).exec overtaken).router? 0 = some ⟨.pair, 1⟩ := rfl
  rw [hrouter, hpair] at hr
  obtain rfl := Option.some.inj hr
  obtain ⟨-, hanswer⟩ := hsame (pair 1) undisturbed 0 job' result' ⟨.pair, 0⟩
    (.pair (by decide)) h' (by rw [hrouter']; rfl) rfl (by rw [hpurpose, hpurpose']) rfl
  exact ⟨job, job', result, result', h, h', rfl, rfl, hsettled, hanswer⟩

end World

end ClusterClient
