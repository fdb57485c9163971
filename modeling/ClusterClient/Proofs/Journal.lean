import ClusterClient.Proofs.Fate
import ClusterClient.Proofs.Requests

/-!
# The journal tells the run

A call writes into the journal of its router, and so do all other calls on it. The lines of one call
are determined by what it has sent and what it has heard, whatever the others do and wherever they
move the pointer between the sending of an attempt and the arrival of its outcome.

```text
DEBUG attempt 1 … endpoint http://a        sent to http://a
WARN  … endpoint http://a, reason …        not reached
DEBUG attempt 2 … endpoint http://b        sent to http://b
                                           a final outcome, or the caller has given up
```

## The architecture

* **`account`**: the lines that a list of attempts and the outcomes heard so far are worth. It is
  written down from the format of the lines alone.
* **`account_send`**, **`account_hear`**: one more attempt, and one more outcome, extend it at its
  end.
* **`account_of_piece`**: the step. **`World.lines_exec`**: the run.
* **`recount`**: what a reader finds in the lines. **`getElem?_recount`**: it is what was sent, and
  why each attempt was followed by another.
* **`Tells`** and **`World.journal_tells`**: all that the lines say of a run.
-/

namespace ClusterClient

/-! ## What the lines should be -/

/-- The line about an attempt that is about to be sent. -/
def Sending.line (budget attempt : Nat) (s : Sending) : Line :=
  ⟨.debug, "sending request",
    [("attempt", .number attempt), ("budget", .number budget), ("endpoint", .text s.endpoint),
      ("method", .text s.request.method.name), ("path", .text s.request.path)]⟩

/-- Why an attempt is followed by another one, as a journal shows it. -/
inductive Cause where
  | referral (leader : String)
  | rejection (hint : String)
  | unreached (reason : String)
  deriving DecidableEq, Repr

/-- The line about a refusal. -/
def Cause.line (endpoint : String) : Cause → Line
  | .referral leader =>
    ⟨.info, "node redirected to leader", [("endpoint", .text endpoint), ("leader_id", .text leader)]⟩
  | .rejection hint =>
    ⟨.info, "node is not leader, retrying", [("endpoint", .text endpoint), ("hint", .text hint)]⟩
  | .unreached reason =>
    ⟨.warn, "node is offline, trying next", [("endpoint", .text endpoint), ("reason", .text reason)]⟩

/-- The cause that a verdict gives; `none` if no other node is tried. -/
def Verdict.cause? : Verdict → Option Cause
  | .redirect (some leader) => some (.referral ("Some(" ++ toString leader ++ ")"))
  | .redirect none => some (.referral "None")
  | .notLeader hint => some (.rejection (hint.getD "unknown"))
  | .unreachable reason => some (.unreached reason)
  | .success | .other => none

/-- The cause that an outcome gives. That a node was not reached is told with the whole message of
the failure. -/
def Outcome.cause? : Outcome → Option Cause
  | .ok r => r.verdict.cause?
  | .error f => if f.unreachable then some (.unreached f.message) else none

/-- The lines about attempts, of which the first one has a number, and about the outcomes that have
been heard of them. -/
def account (budget : Nat) : Nat → List Sending → List Outcome → List Line
  | _, [], _ => []
  | attempt, s :: ss, os =>
    s.line budget attempt :: ((os.head?.bind Outcome.cause?).toList.map (Cause.line s.endpoint) ++
      account budget (attempt + 1) ss os.tail)

/-- What the caller has been given, if the call has ended. -/
def Call.given? (c : Call) (p : Purpose) : Option (Except Fault Answer) :=
  match c.phase with
  | .ended result => some (p.conclude result)
  | _ => none

/-- The line at the end of a call that has spent its budget. -/
def exhaustedLine (size : Nat) : Line :=
  ⟨.warn, "all nodes in cluster are unreachable or failed",
    [("attempts", .number (size + 1)), ("endpoints", .number size)]⟩

/-- What is written at the end of a call, by what the caller is given. -/
def closing (size : Nat) : Option (Except Fault Answer) → List Line
  | some (.error (.clusterUnreachable _ _)) => [exhaustedLine size]
  | _ => []

section Account

variable {budget : Nat} {ss : List Sending} {os : List Outcome}

/-- **One more attempt**, when all outcomes have been heard. -/
theorem account_send (attempt : Nat) (hlength : os.length ≤ ss.length) (s : Sending) :
    account budget attempt (ss ++ [s]) os =
      account budget attempt ss os ++ [s.line budget (attempt + ss.length)] := by
  induction ss generalizing attempt os with
  | nil =>
    obtain rfl : os = [] := List.length_eq_zero_iff.mp (Nat.le_zero.mp hlength)
    rfl
  | cons t ss ih =>
    have htail : os.tail.length ≤ ss.length := by
      rw [List.length_tail]
      simp only [List.length_cons] at hlength
      omega
    rw [List.cons_append, account, account, ih (attempt + 1) htail, List.length_cons,
      Nat.add_assoc, Nat.add_comm 1]
    simp

/-- **One more outcome**, that of the last attempt. -/
theorem account_hear (attempt : Nat) (hlength : os.length = ss.length) (s : Sending) (o : Outcome) :
    account budget attempt (ss ++ [s]) (os ++ [o]) =
      account budget attempt (ss ++ [s]) os ++ o.cause?.toList.map (Cause.line s.endpoint) := by
  induction ss generalizing attempt os with
  | nil =>
    obtain rfl : os = [] := List.length_eq_zero_iff.mp hlength
    simp [account]
  | cons t ss ih =>
    cases os with
    | nil => cases hlength
    | cons p os =>
      have htail : os.length = ss.length := Nat.succ.inj hlength
      simp only [List.cons_append, account, List.head?_cons, List.tail_cons, ih (attempt + 1) htail,
        List.append_assoc]

end Account

/-! ## What is written -/

/-- The entry whose writing an occurrence is. -/
def Occurrence.entry? : Occurrence → Option Entry
  | .noted e => some e
  | _ => none

/-- What a piece of work writes. -/
def Move.lines (m : Move) : List Line :=
  (m.events.filterMap Occurrence.entry?).map Entry.line

namespace Outcome

/-- The cause of a refusal is the one that the verdict gives. -/
theorem cause?_eq (o : Outcome) : o.cause? = (Verdict.ofOutcome o).cause? := by
  cases o with
  | ok r => rfl
  | error f => cases hf : f.unreachable <;> simp [cause?, Verdict.ofOutcome, Verdict.cause?, hf]

/-- Refusals have a cause, and nothing else has. -/
theorem isSome_cause? (o : Outcome) : o.cause?.isSome = o.isRefusal := by
  rw [cause?_eq, isRefusal]
  cases Verdict.ofOutcome o with
  | redirect leader => cases leader <;> rfl
  | success | notLeader | unreachable | other => rfl

/-- A final outcome is no refusal, so no line tells of it. -/
theorem cause?_of_final {o : Outcome} (h : o.isRefusal = false) : o.cause? = none := by
  rw [← isSome_cause?] at h
  simpa using h

/-- **What is written about an outcome.** -/
theorem lines_refusal (endpoint : String) (o : Outcome) :
    ((Call.refusal endpoint (Verdict.ofOutcome o)).filterMap Occurrence.entry?).map Entry.line =
      o.cause?.toList.map (Cause.line endpoint) := by
  rw [cause?_eq]
  cases Verdict.ofOutcome o with
  | redirect leader => cases leader <;> rfl
  | success | notLeader | unreachable | other => rfl

end Outcome

/-- A reply never makes a call end in exhaustion. -/
theorem closing_conclude (size : Nat) (o : Outcome) (p : Purpose) :
    closing size (some (p.conclude (o.mapError Fault.transport))) = [] := by
  cases o with
  | error f => rfl
  | ok reply =>
    show closing size (some (p.conclude (.ok reply))) = []
    cases hgiven : p.conclude (.ok reply) with
    | ok a => rfl
    | error f =>
      rcases Purpose.conclude_ok_error hgiven with ⟨e, rfl⟩ | rfl <;> rfl

namespace Call

variable {c : Call} {attempt : Nat}

/-- A call that is about to send has given nothing back. -/
theorem given?_of_poised (h : c.phase = .poised attempt) (p : Purpose) : c.given? p = none := by
  simp [given?, h]

/-- Nor has one that waits for an outcome. -/
theorem given?_of_inFlight {place : Nat} {arrived : Option Planned}
    (h : c.phase = .inFlight attempt place arrived) (p : Purpose) : c.given? p = none := by
  simp [given?, h]

theorem given?_of_ended {result : Except Fault Reply} (h : c.phase = .ended result) (p : Purpose) :
    c.given? p = some (p.conclude result) := by
  simp [given?, h]

end Call

section Step

variable {cancelled : Bool} {heard : List Hearing} {targets : List Nat} {c : Call} {r : Router}
  {m : Move}

/-- The attempts of a call by the places that they went to. -/
def attemptsAt (roster : Roster) (request : Request) (targets : List Nat) : List Sending :=
  targets.map fun target => ⟨target, roster.endpoint target, request⟩

/-- There is one attempt for every target. -/
theorem length_attemptsAt (roster : Roster) (request : Request) (targets : List Nat) :
    (attemptsAt roster request targets).length = targets.length :=
  List.length_map _

theorem attemptsAt_concat (roster : Roster) (request : Request) (targets : List Nat) (t : Nat) :
    attemptsAt roster request (targets ++ [t]) =
      attemptsAt roster request targets ++ [⟨t, roster.endpoint t, request⟩] := by
  simp [attemptsAt]

/-- The outcome of the attempt in flight names the endpoint that the attempt was sent to. -/
theorem account_of_inFlight {size attempt place : Nat} {arrived : Option Planned}
    (h : Course size cancelled heard targets (.inFlight attempt place arrived)) (budget : Nat)
    (roster : Roster) (request : Request) (o : Outcome) :
    account budget 1 (attemptsAt roster request targets) (heard.map Hearing.outcome ++ [o]) =
      account budget 1 (attemptsAt roster request targets) (heard.map Hearing.outcome) ++
        o.cause?.toList.map (Cause.line (roster.endpoint place)) := by
  cases h with
  | inFlight refused asked within =>
    have hlength : (heard.map Hearing.outcome).length =
        (attemptsAt roster request (heard.map Hearing.target)).length := by
      rw [List.length_map, length_attemptsAt, List.length_map]
    rw [asked, attemptsAt_concat]
    exact account_hear 1 hlength _ o

/-- **A piece of work writes what its account has to say.** -/
theorem account_of_piece (h : Course r.roster.size cancelled heard targets c.phase)
    (piece : Call.Piece c r cancelled m) (p : Purpose) :
    account r.roster.budget 1 (attemptsAt r.roster c.request targets ++ m.sendings)
        (heard.map Hearing.outcome ++ ((c.heard? r cancelled).map fun x => x.2.2).toList) ++
        closing r.roster.size (m.call.given? p) =
      account r.roster.budget 1 (attemptsAt r.roster c.request targets)
        (heard.map Hearing.outcome) ++ closing r.roster.size (c.given? p) ++ m.lines := by
  cases piece with
  | exhausted phase spent =>
    rw [Call.heard?_of_poised r phase, Call.given?_of_poised phase]
    simp only [Call.finish_noted_sendings, Option.map_none, Option.toList_none, List.append_nil,
      closing]
    rfl
  | withdrawn phase left fired =>
    rw [Call.heard?_of_poised r phase, Call.given?_of_poised phase]
    simp only [Call.finish_sendings, Option.map_none, Option.toList_none, List.append_nil, closing]
    rfl
  | @sent attempt phase left unfired =>
    rw [phase] at h
    obtain ⟨hheard, htargets, -⟩ := h.of_poised
    have hlength : (heard.map Hearing.outcome).length ≤
        (attemptsAt r.roster c.request targets).length := by
      rw [List.length_map, length_attemptsAt]
      omega
    -- the number of the attempt counts the attempts before it
    have hnumber : 1 + (attemptsAt r.roster c.request targets).length = attempt := by
      rw [length_attemptsAt]
      omega
    rw [Call.heard?_of_poised r phase, Call.given?_of_poised phase,
      Call.given?_of_inFlight (Call.send_phase c r attempt), Call.send_sendings]
    simp only [Option.map_none, Option.toList_none, List.append_nil, closing]
    rw [account_send 1 hlength, hnumber]
    rfl
  | interrupted phase fired =>
    subst fired
    rw [Call.heard?_of_cancelled, Call.given?_of_inFlight phase]
    simp only [Call.finish_sendings, Option.map_none, Option.toList_none, List.append_nil, closing]
    rfl
  | @refused attempt place arrived phase unfired refusal =>
    -- the endpoint is looked up at the place of the attempt, not at that of the pointer
    subst unfired
    rw [phase] at h
    rw [Call.heard?_of_arrived r phase, Call.given?_of_inFlight phase, Call.given?_of_poised rfl]
    simp only [Move.sendings, Call.refusal_sendings, Option.map_some, Option.toList_some,
      List.append_nil, closing]
    rw [account_of_inFlight h, Move.lines, Outcome.lines_refusal]
  | @concluded attempt place arrived phase unfired final =>
    subst unfired
    rw [phase] at h
    rw [Call.heard?_of_arrived r phase, Call.given?_of_inFlight phase, Call.given?_of_ended rfl,
      closing_conclude]
    simp only [Call.finish_fires_sendings, Option.map_some, Option.toList_some, List.append_nil,
      closing]
    rw [account_of_inFlight h, Outcome.cause?_of_final final]
    rfl

end Step

namespace World

/-- The lines that the call at a place has written. -/
def lines (w : World) (q : Nat) : List Line :=
  (w.history.filterMap fun report =>
    if report.place = q then report.occurrence.entry? else none).map Entry.line

theorem lines_after (w : World) (q q' : Nat) (job : Job) (m : Move) :
    (w.after q job m).lines q' = w.lines q' ++ if q = q' then m.lines else [] := by
  rw [lines, filterMap_history_after, List.map_append, ← lines]
  split <;> rfl

/-- Of a call that has not begun there are no lines. -/
theorem WellFormed.lines_eq_nil {w : World} (h : w.WellFormed) {q : Nat}
    (hq : w.jobs.length ≤ q) : w.lines q = [] := by
  rw [lines, h.filterMap_history_eq_nil Occurrence.entry? hq, List.map_nil]

/-- A call writes in its own pieces of work only. -/
theorem lines_act_of_ne {w : World} {a : Act} {q : Nat} (ha : a ≠ .work q) :
    (w.act a).lines q = w.lines q := by
  rcases a.work_or with ⟨q', rfl⟩ | hne
  · rcases act_work_cases w q' with ⟨-, hact⟩ | ⟨job, r, m, -, -, -, hact⟩
    · rw [hact]
    · have hq : q' ≠ q := fun h => ha (h ▸ rfl)
      rw [hact, lines_after, if_neg hq, List.append_nil]
  · rw [lines, history_act_of_ne_work hne, lines]

/-- An act by which a call hears nothing adds no outcome. -/
theorem outcomes_concat_of_none {w : World} {q : Nat} {as : List Act} {a : Act}
    (h : ∀ x, (w.exec as).hearing? a = some x → x.caller ≠ q) :
    w.outcomes q (as ++ [a]) = w.outcomes q as := by
  rw [outcomes, heardBy_concat_of_none h, outcomes]

/-- The work of a call adds the outcome that it hears, if it hears one. -/
theorem outcomes_concat_work {w : World} {q : Nat} {as : List Act} {job : Job} {r : Router}
    (hjob : (w.exec as).jobs[q]? = some job) (hr : (w.exec as).router? job.router = some r) :
    w.outcomes q (as ++ [.work q]) = w.outcomes q as ++
      ((job.call.heard? r ((w.exec as).isCancelled job.call)).map fun x => x.2.2).toList := by
  rw [outcomes, heardBy_concat_work hjob hr, List.map_append, ← outcomes]
  cases job.call.heard? r ((w.exec as).isCancelled job.call) <;> rfl

/-- **The lines of a call in a schedule** are its account, whatever other calls do. -/
theorem lines_exec {w : World} (hw : w.WellFormed) {q : Nat} (hq : w.jobs.length ≤ q)
    (acts : List Act) {job : Job} (hjob : (w.exec acts).jobs[q]? = some job) {r : Router}
    (hr : (w.exec acts).router? job.router = some r) :
    (w.exec acts).lines q =
      account r.roster.budget 1 ((w.exec acts).sendings q) (w.outcomes q acts) ++
        closing r.roster.size (job.call.given? job.purpose) := by
  induction acts using List.reverseRecOn generalizing job r with
  | nil => exact absurd hjob (not_job hq)
  | append_singleton acts a ih =>
    rw [exec_concat] at hjob hr ⊢
    have hwf := hw.exec acts
    -- the work of the call itself is opened, for `Was` does not keep what a piece of work writes
    by_cases ha : a = .work q
    · subst ha
      rcases act_work_cases (w.exec acts) q with ⟨hnone, hact⟩ | ⟨old, r', m, hold, hr', piece, hact⟩
      · have hunheard : ∀ x, (w.exec acts).hearing? (.work q) = some x → x.caller ≠ q := by
          intro x hx
          rw [hearing?_of_work?_eq_none hnone] at hx
          cases hx
        rw [hact] at hjob hr ⊢
        rw [outcomes_concat_of_none hunheard]
        exact ih hjob hr
      · obtain ⟨r₀, hr₀, hcourse⟩ := course_exec hw hq acts hold
        obtain rfl := Option.some.inj (hr'.symm.trans hr₀)
        rw [hact, jobs_after_self hold] at hjob
        obtain rfl := Option.some.inj hjob
        obtain ⟨r₀, hr₀, hroster⟩ := hwf.router_before hold hr
        obtain rfl := Option.some.inj (hr'.symm.trans hr₀)
        rw [hact, lines_after, if_pos rfl, sendings_after, if_pos rfl,
          outcomes_concat_work hold hr', hroster, ih hold hr', sendings_exec hw hq acts hold hr']
        exact (account_of_piece hcourse piece old.purpose).symm
    · rw [lines_act_of_ne ha]
      cases was_of_act hjob with
      | started act_eq router new job_eq unsent unheard =>
        rw [unsent, outcomes_concat_of_none unheard, hwf.lines_eq_nil (by omega),
          hwf.sendings_eq_nil (by omega), job_eq]
        rfl
      | kept before unsent unheard =>
        obtain ⟨r', hr', hroster⟩ := hwf.router_before before hr
        rw [unsent, outcomes_concat_of_none unheard, hroster]
        exact ih before hr'
      | @arrived old p call act_eq before delivered job_eq unsent unheard =>
        have hrouter : old.router = job.router := by rw [job_eq]
        obtain ⟨r', hr', hroster⟩ := hwf.router_before before (hrouter ▸ hr)
        obtain ⟨attempt, place, hphase, rfl⟩ := Call.deliver?_eq_some delivered
        have hbefore := ih before hr'
        rw [Call.given?_of_inFlight hphase] at hbefore
        rw [unsent, outcomes_concat_of_none unheard, hroster, job_eq, Call.given?_of_inFlight rfl]
        exact hbefore
      | worked act_eq => exact absurd act_eq ha

end World

/-! ## Reading the lines -/

namespace Line

/-- A field that holds a text. -/
def text? (l : Line) (name : String) : Option String :=
  match l.fields.lookup name with
  | some (.text s) => some s
  | _ => none

/-- The endpoint that an attempt is sent to, if the line is about the sending of one. -/
def attempt? (l : Line) : Option String :=
  if l.message = "sending request" then l.text? "endpoint" else none

/-- The cause that the line gives, if it is about a refusal. -/
def cause? (l : Line) : Option Cause :=
  if l.message = "node redirected to leader" then (l.text? "leader_id").map .referral
  else if l.message = "node is not leader, retrying" then (l.text? "hint").map .rejection
  else if l.message = "node is offline, trying next" then (l.text? "reason").map .unreached
  else none

end Line

/-- An attempt as a reader of the journal finds it. -/
structure Trial where
  endpoint : String
  /-- Why it was followed by another one. -/
  cause : Option Cause
  deriving DecidableEq, Repr

/-- The attempts that lines tell of. The cause is in the line right behind the one about the
sending. -/
def recount : List Line → List Trial
  | [] => []
  | l :: ls =>
    match l.attempt? with
    | some endpoint => ⟨endpoint, ls.head?.bind Line.cause?⟩ :: recount ls
    | none => recount ls

section Recount

variable {budget size attempt : Nat} {ss : List Sending} {os : List Outcome} {ls rest : List Line}

@[simp] theorem attempt?_sending (s : Sending) :
    (s.line budget attempt).attempt? = some s.endpoint := rfl

@[simp] theorem cause?_sending (s : Sending) : (s.line budget attempt).cause? = none := rfl

@[simp] theorem attempt?_cause (endpoint : String) (c : Cause) :
    (c.line endpoint).attempt? = none := by
  cases c <;> rfl

@[simp] theorem cause?_cause (endpoint : String) (c : Cause) :
    (c.line endpoint).cause? = some c := by
  cases c <;> rfl

/-- Lines that are about no attempt. -/
def Silent (ls : List Line) : Prop :=
  ∀ l ∈ ls, l.attempt? = none ∧ l.cause? = none

/-- The line that closes an account is about exhaustion. -/
theorem eq_of_mem_closing {given : Option (Except Fault Answer)} {l : Line}
    (hl : l ∈ closing size given) : l = exhaustedLine size := by
  unfold closing at hl
  split at hl
  · exact List.mem_singleton.mp hl
  · cases hl

/-- It names no attempt and no cause. -/
theorem silent_closing (size : Nat) (given : Option (Except Fault Answer)) :
    Silent (closing size given) := by
  intro l hl
  rw [eq_of_mem_closing hl]
  exact ⟨rfl, rfl⟩

/-- Lines without attempts and causes recount nothing. -/
theorem recount_of_silent (h : Silent ls) : recount ls = [] := by
  induction ls with
  | nil => rfl
  | cons l ls ih =>
    obtain ⟨hl, hls⟩ := List.forall_mem_cons.mp h
    rw [recount, hl.1]
    exact ih hls

/-- No account begins with a cause. -/
theorem cause?_head_account (hrest : Silent rest) :
    (account budget attempt ss os ++ rest).head?.bind Line.cause? = none := by
  cases ss with
  | nil =>
    cases rest with
    | nil => rfl
    | cons l ls => exact (hrest l List.mem_cons_self).2
  | cons s ss => exact cause?_sending s

/-- The first attempt in an account is read together with the line behind it. -/
theorem recount_account_cons (attempt : Nat) (hrest : Silent rest) (s : Sending) :
    recount (account budget attempt (s :: ss) os ++ rest) =
      ⟨s.endpoint, os.head?.bind Outcome.cause?⟩ ::
        recount (account budget (attempt + 1) ss os.tail ++ rest) := by
  cases hcause : os.head?.bind Outcome.cause? with
  | none =>
    simp only [account, hcause, Option.toList_none, List.map_nil, List.nil_append,
      List.cons_append, recount, attempt?_sending, cause?_head_account hrest]
  | some c =>
    simp only [account, hcause, Option.toList_some, List.map_cons, List.map_nil,
      List.cons_append, List.nil_append, recount, attempt?_sending, attempt?_cause,
      List.head?_cons, Option.bind_some, cause?_cause]

/-- **What a reader finds in an account**: the attempts in their order, each with the cause that its
outcome gave. -/
theorem getElem?_recount (attempt : Nat) (hrest : Silent rest) (i : Nat) :
    (recount (account budget attempt ss os ++ rest))[i]? =
      ss[i]?.map fun s => ⟨s.endpoint, os[i]?.bind Outcome.cause?⟩ := by
  induction ss generalizing attempt os i with
  | nil =>
    rw [account, List.nil_append, recount_of_silent hrest]
    rfl
  | cons s ss ih =>
    rw [recount_account_cons attempt hrest]
    cases i with
    | zero => simp [List.head?_eq_getElem?]
    | succ i => rw [List.getElem?_cons_succ, ih, List.getElem?_cons_succ, List.getElem?_tail]

/-- Only endpoints that attempts were sent to are named. -/
theorem endpoint_of_mem_account {l : Line} (hl : l ∈ account budget attempt ss os) {endpoint : String}
    (hnamed : l.text? "endpoint" = some endpoint) : ∃ s ∈ ss, s.endpoint = endpoint := by
  induction ss generalizing attempt os with
  | nil => cases hl
  | cons s ss ih =>
    rw [account, List.mem_cons, List.mem_append, List.mem_map] at hl
    rcases hl with rfl | ⟨c, -, rfl⟩ | hl
    · exact ⟨s, List.mem_cons_self, Option.some.inj hnamed⟩
    · have hcause : (c.line s.endpoint).text? "endpoint" = some s.endpoint := by cases c <;> rfl
      exact ⟨s, List.mem_cons_self, Option.some.inj (hcause.symm.trans hnamed)⟩
    · obtain ⟨t, ht, heq⟩ := ih hl
      exact ⟨t, List.mem_cons_of_mem s ht, heq⟩

/-- **The end of an account** is the line about the last attempt, if no cause was found in its
outcome. -/
theorem getLast?_account_concat {s : Sending} (hlength : os.length = ss.length)
    (last : Option Outcome) (hlast : last.bind Outcome.cause? = none) :
    (account budget 1 (ss ++ [s]) (os ++ last.toList)).getLast? =
      some (s.line budget (ss ++ [s]).length) := by
  have hsent : (account budget 1 (ss ++ [s]) os).getLast? =
      some (s.line budget (ss ++ [s]).length) := by
    rw [account_send 1 (Nat.le_of_eq hlength), List.getLast?_concat, List.length_append,
      List.length_singleton, Nat.add_comm]
  cases last with
  | none =>
    rw [Option.toList_none, List.append_nil]
    exact hsent
  | some o =>
    have hnone : o.cause? = none := hlast
    rw [Option.toList_some, account_hear 1 hlength, hnone]
    simpa using hsent

end Recount

/-! ## The run and its journal -/

/-- **Lines that tell the run of a call**: what it has sent, what it has heard, and what its caller
has been given, if it has ended. -/
structure Tells (lines : List Line) (roster : Roster) (ss : List Sending) (heard : List Hearing)
    (given : Option (Except Fault Answer)) : Prop where
  /-- The lines are the account of attempts and outcomes. Exhaustion is written down at the end,
  exactly if the caller is told of it. -/
  account_eq : lines = account (roster.size + 1) 1 ss (heard.map Hearing.outcome) ++
    closing roster.size given
  /-- The outcomes are those of the attempts in their order, and at most one is missing. -/
  order : ∃ rest, ss.map Sending.place = heard.map Hearing.target ++ rest ∧ rest.length ≤ 1
  /-- Behind an attempt without an outcome, or with a final one, nothing is written. -/
  quiet : ∀ s, ss.getLast? = some s →
    (heard.length < ss.length ∨ ∃ x, heard.getLast? = some x ∧ x.outcome.isRefusal = false) →
      lines.getLast? = some (s.line (roster.size + 1) ss.length)
  /-- A reader finds the attempts, their endpoints and why each was followed by another. -/
  recount_eq : ∀ i : Nat, (recount lines)[i]? =
    ss[i]?.map fun s => ⟨s.endpoint, (heard[i]?.map Hearing.outcome).bind Outcome.cause?⟩
  /-- No endpoint is named that nothing was sent to. -/
  named : ∀ l ∈ lines, ∀ endpoint, l.text? "endpoint" = some endpoint →
    ∃ s ∈ ss, s.endpoint = endpoint

namespace Course

variable {size : Nat} {cancelled : Bool} {heard : List Hearing} {targets : List Nat} {c : Call}

/-- What was heard are the outcomes of what was sent. -/
theorem heard_in_order {phase : Phase} (h : Course size cancelled heard targets phase) :
    ∃ rest, targets = heard.map Hearing.target ++ rest ∧ rest.length ≤ 1 := by
  cases h with
  | poised refused asked within => exact ⟨[], by rw [asked, List.append_nil], Nat.zero_le 1⟩
  | inFlight refused asked within => exact ⟨_, asked, Nat.le_refl 1⟩
  | exhausted refused asked spent => exact ⟨[], by rw [asked, List.append_nil], Nat.zero_le 1⟩
  | concluded heard_eq refused final asked within =>
    exact ⟨[], by rw [asked, List.append_nil], Nat.zero_le 1⟩
  | withdrawn fired refused asked within => exact ⟨[], by rw [asked, List.append_nil], Nat.zero_le 1⟩
  | interrupted fired refused asked within => exact ⟨_, asked, Nat.le_refl 1⟩

/-- Behind a final outcome there is no attempt. -/
theorem length_of_final {phase : Phase} (h : Course size cancelled heard targets phase)
    {x : Hearing} (hx : heard.getLast? = some x) (hfinal : x.outcome.isRefusal = false) :
    targets.length = heard.length := by
  have hnot : ¬ ∀ y ∈ heard, y.outcome.isRefusal = true := by
    intro hall
    rw [hall x (List.mem_of_getLast? hx)] at hfinal
    cases hfinal
  cases h with
  | concluded heard_eq refused final asked within => rw [asked, List.length_map]
  | poised refused | inFlight refused | exhausted refused | withdrawn fired refused
  | interrupted fired refused => exact absurd refused hnot

/-- Behind an attempt without an outcome, or with a final one, the account ends. -/
theorem getLast?_account {phase : Phase} (h : Course size cancelled heard targets phase)
    {ss : List Sending} {s : Sending} (hss : targets = (ss ++ [s]).map Sending.place)
    (hopen : heard.length < targets.length ∨
      ∃ x, heard.getLast? = some x ∧ x.outcome.isRefusal = false) (budget : Nat) :
    (account budget 1 (ss ++ [s]) (heard.map Hearing.outcome)).getLast? =
      some (s.line budget (ss ++ [s]).length) := by
  have hlength : targets.length = ss.length + 1 := by
    rw [hss, List.length_map, List.length_append, List.length_singleton]
  rcases hopen with hlt | ⟨x, hx, hfinal⟩
  · -- the last attempt is the one whose outcome is missing
    obtain ⟨rest, hrest, hone⟩ := h.heard_in_order
    have hmissing := congrArg List.length hrest
    rw [List.length_append, List.length_map] at hmissing
    have hall : (heard.map Hearing.outcome).length = ss.length := by
      rw [List.length_map]
      omega
    simpa using getLast?_account_concat (s := s) hall none rfl
  · -- a final outcome has no line of its own
    obtain ⟨before, rfl⟩ := List.getLast?_eq_some_iff.mp hx
    have hmet := h.length_of_final hx hfinal
    rw [List.length_append, List.length_singleton] at hmet
    have hall : (before.map Hearing.outcome).length = ss.length := by
      rw [List.length_map]
      omega
    rw [List.map_append]
    exact getLast?_account_concat (s := s) hall (some x.outcome)
      (Outcome.cause?_of_final hfinal)

/-- A call that has spent its budget has heard a refusal of every attempt. -/
theorem closing_eq_nil (h : Course size cancelled heard targets c.phase) (p : Purpose)
    (hopen : heard.length < targets.length ∨
      ∃ x, heard.getLast? = some x ∧ x.outcome.isRefusal = false) :
    closing size (c.given? p) = [] := by
  generalize hphase : c.phase = phase at h
  -- the account closes only with the last refusal, which this call has not heard
  cases h with
  | poised =>
    rw [Call.given?_of_poised hphase]
    rfl
  | inFlight =>
    rw [Call.given?_of_inFlight hphase]
    rfl
  | exhausted refused asked spent =>
    -- all outcomes are there, and all are refusals
    rcases hopen with hlt | ⟨x, hx, hfinal⟩
    · rw [asked, List.length_map] at hlt
      exact absurd hlt (Nat.lt_irrefl _)
    · rw [refused x (List.mem_of_getLast? hx)] at hfinal
      cases hfinal
  | concluded =>
    rw [Call.given?_of_ended hphase]
    exact closing_conclude size _ p
  | withdrawn | interrupted =>
    rw [Call.given?_of_ended hphase]
    rfl

end Course

namespace World

/-- **The lines of a call tell its run.** -/
theorem tells_exec {w : World} (hw : w.WellFormed) {q : Nat} (hq : w.jobs.length ≤ q)
    (acts : List Act) {job : Job} (hjob : (w.exec acts).jobs[q]? = some job) {r : Router}
    (hr : (w.exec acts).router? job.router = some r) :
    Tells ((w.exec acts).lines q) r.roster ((w.exec acts).sendings q) (w.heardBy q acts)
      (job.call.given? job.purpose) := by
  have haccount := lines_exec hw hq acts hjob hr
  obtain ⟨r', hr', hcourse⟩ := course_exec hw hq acts hjob
  obtain rfl := Option.some.inj (hr.symm.trans hr')
  have horder := hcourse.heard_in_order
  constructor
  case account_eq => exact haccount
  case order => exact horder
  case quiet =>
    -- nothing closes the account, and nothing tells of the last outcome
    intro s hs hopen
    have hopen' : (w.heardBy q acts).length < ((w.exec acts).targets q).length ∨
        ∃ x, (w.heardBy q acts).getLast? = some x ∧ x.outcome.isRefusal = false := by
      rw [length_targets]
      exact hopen
    obtain ⟨ss, hss⟩ := List.getLast?_eq_some_iff.mp hs
    rw [haccount, hcourse.closing_eq_nil job.purpose hopen', List.append_nil, outcomes, hss]
    exact hcourse.getLast?_account (by rw [targets, hss]) hopen' r.roster.budget
  case recount_eq =>
    intro i
    rw [haccount, getElem?_recount 1 (silent_closing _ _), outcomes, List.getElem?_map]
  case named =>
    -- a line of the account, since the closing one names nobody
    intro l hl endpoint hnamed
    rw [haccount, List.mem_append] at hl
    rcases hl with hl | hl
    · exact endpoint_of_mem_account hl hnamed
    · rw [eq_of_mem_closing hl] at hnamed
      cases hnamed

/-- **The journal tells the run.** A call that a client starts writes down what it sends and what it
hears, line by line, under any schedule: with any other calls that move the pointer meanwhile, and
with any moment at which its caller gives up. All its attempts go to the endpoints of the roster,
with the method and the normal path of the caller's request. -/
theorem journal_tells {w : World} (hw : w.WellFormed) {handle : Handle} {r : Router}
    (hr : w.routerOf? handle = some r) (id : String) (purpose : Purpose) (token : Option String)
    (script : List Planned) (acts : List Act) :
    let w' := w.exec (.start id handle purpose token script :: acts)
    let q := w.jobs.length
    let draft := purpose.draft handle.stream r.roster.tenant
    ∃ job, w'.jobs[q]? = some job ∧ job.purpose = purpose ∧
      (∀ s ∈ w'.sendings q, s.endpoint = r.roster.endpoint s.place ∧
        s.request.method = draft.method ∧ s.request.path = absolutePath draft.path) ∧
      Tells (w'.lines q) r.roster (w'.sendings q)
        (w.heardBy q (.start id handle purpose token script :: acts)) (job.call.given? purpose) := by
  intro w' q draft
  obtain ⟨job, hjob, hsame⟩ := continues_exec (started_job hr id purpose token script) acts
  obtain ⟨r', hr', hroster⟩ := router?_exec_roster hr (.start id handle purpose token script :: acts)
  rw [← exec_cons] at hjob
  have hrouter : w'.router? job.router = some r' := by
    rw [hsame.router]
    exact hr'
  have hpurpose : job.purpose = purpose := hsame.purpose
  have htells := tells_exec hw (Nat.le_refl _) _ hjob hrouter
  rw [hroster, hpurpose] at htells
  refine ⟨job, hjob, hpurpose, fun s hs => ?_, htells⟩
  -- every request is the one that the call was started with
  rw [sendings_exec hw (Nat.le_refl _) _ hjob hrouter] at hs
  obtain ⟨place, -, rfl⟩ := List.mem_map.mp hs
  rw [hroster, hsame.request]
  exact ⟨rfl, rfl, rfl⟩

/-- A call on its own that meets no node. -/
def unmet : List Act :=
  .start "x" ⟨0, .nil⟩ (.operation .backlog) none [.refusal, .refusal, .refusal] ::
    List.replicate 7 (.work 0)

/-- The lines of the call that is overtaken. While its first attempt is in flight another call moves
the pointer on to `http://b`; the line about the refusal names `http://a` all the same. The call
that meets no node closes with the line about that. -/
theorem journal_tells_of_overtaken :
    ((pair 0).exec overtaken).lines 0 =
      [⟨.debug, "sending request", [("attempt", .number 1), ("budget", .number 3),
          ("endpoint", .text "http://a"), ("method", .text "GET"),
          ("path", .text "/v1/status/pending")]⟩,
        ⟨.warn, "node is offline, trying next", [("endpoint", .text "http://a"),
          ("reason", .text "node http://n is unreachable: connection refused")]⟩,
        ⟨.debug, "sending request", [("attempt", .number 2), ("budget", .number 3),
          ("endpoint", .text "http://b"), ("method", .text "GET"),
          ("path", .text "/v1/status/pending")]⟩] ∧
      (recount (((pair 0).exec overtaken).lines 0))[1]? = some ⟨"http://b", none⟩ ∧
      (((pair 0).exec unmet).lines 0).getLast? =
        some ⟨.warn, "all nodes in cluster are unreachable or failed",
          [("attempts", .number 3), ("endpoints", .number 2)]⟩ := by
  have hwf : (pair 0).WellFormed := .pair (by decide)
  have hclient : (pair 0).routerOf? ⟨0, .nil⟩ = some ⟨.pair, 0⟩ := rfl
  obtain ⟨job, hjob, -, -, htells⟩ := journal_tells hwf hclient "x" (.operation .backlog) none
    [.refusal, .broken] overtaken.tail
  obtain ⟨job', hjob', -, -, htells'⟩ := journal_tells hwf hclient "x" (.operation .backlog) none
    [.refusal, .refusal, .refusal] unmet.tail
  have hgiven : (((pair 0).exec overtaken).jobs[0]?.bind fun job =>
      job.call.given? (.operation .backlog)) =
        some (.error (.transport ⟨false, "http://n", "connection closed"⟩)) := rfl
  have hgiven' : (((pair 0).exec unmet).jobs[0]?.bind fun job =>
      job.call.given? (.operation .backlog)) = some (.error (.clusterUnreachable 3 2)) := rfl
  rw [show ((pair 0).exec overtaken).jobs[0]? = some job from hjob, Option.bind_some] at hgiven
  rw [show ((pair 0).exec unmet).jobs[0]? = some job' from hjob', Option.bind_some] at hgiven'
  refine ⟨htells.account_eq.trans ?_, (htells.recount_eq 1).trans ?_, ?_⟩
  · rw [hgiven]
    rfl
  · rfl
  · refine (congrArg List.getLast? htells'.account_eq).trans ?_
    rw [hgiven']
    rfl

end World

end ClusterClient
