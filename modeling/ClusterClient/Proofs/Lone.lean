import ClusterClient.Proofs.Fate
import ClusterClient.Proofs.Pointer

/-!
# Calls that do not overlap

A call that has its router to itself goes round the ring from where the pointer is: each refusal
moves the pointer on, and the next attempt goes to where it has moved. So the outcomes that the
nodes give determine everything, and calls one after another share one walk round the ring.

* **`World.Alone`**: no other call on a router hears anything along a schedule. Other routers may
  be busy.
* **`World.Pace`** and **`World.pace`**: the invariant and its induction. All refusals are advances,
  the attempts are a tour of the ring, and the one in flight is where the pointer is.
* **`Fate.of_stream`**: the fate of a call by the first final outcome of a stream of outcomes.
* **`answered_finishes`**: a call that is answered finishes.
-/

namespace ClusterClient

/-! ## Tours -/

namespace Router

/-- The places that are met on the way, the pointer's own first. -/
def tour (r : Router) (length : Nat) : List Nat :=
  (List.range length).map r.ahead

theorem tour_succ (r : Router) (k : Nat) : r.tour (k + 1) = r.tour k ++ [r.ahead k] := by
  simp [tour, List.range_succ]

@[simp] theorem tour_length (r : Router) (k : Nat) : (r.tour k).length = k := by
  simp [tour]

end Router

namespace World

/-! ## One call on a router -/

/-- Along a schedule no call on a router hears anything but one. -/
def Alone (w : World) (n q : Nat) (acts : List Act) : Prop :=
  ∀ x ∈ w.hearings acts, x.router = n → x.caller = q

/-- A call that is alone along a schedule is so along its beginning. -/
theorem Alone.of_append {w : World} {n q : Nat} {as bs : List Act} (h : w.Alone n q (as ++ bs)) :
    w.Alone n q as := by
  intro x hx
  refine h x ?_
  rw [hearings_append]
  exact List.mem_append_left _ hx

/-- What is heard last on the router of a lone call is heard by that call. -/
theorem Alone.last {w : World} {n q : Nat} {as : List Act} {a : Act}
    (h : w.Alone n q (as ++ [a])) {x : Hearing} (hx : (w.exec as).hearing? a = some x)
    (hn : x.router = n) : x.caller = q := by
  refine h x ?_ hn
  rw [hearings_concat, hx]
  simp

/-- How many refusals calls on a router hear along a schedule. -/
def refusalCount (w : World) (n : Nat) (acts : List Act) : Nat :=
  (w.hearings acts).countP fun x => x.router = n && x.outcome.isRefusal

@[simp] theorem refusalCount_nil (w : World) (n : Nat) : w.refusalCount n [] = 0 := rfl

/-- Refusals are counted part by part. -/
theorem refusalCount_append (w : World) (n : Nat) (as bs : List Act) :
    w.refusalCount n (as ++ bs) = w.refusalCount n as + (w.exec as).refusalCount n bs := by
  simp only [refusalCount, hearings_append, List.countP_append]

/-- An act that hears nothing on the router adds no refusal. -/
theorem refusalCount_concat_of_none {w : World} {n : Nat} {as : List Act} {a : Act}
    (h : ∀ x, (w.exec as).hearing? a = some x → x.router ≠ n) :
    w.refusalCount n (as ++ [a]) = w.refusalCount n as := by
  rw [refusalCount, hearings_concat, List.countP_append, ← refusalCount]
  cases hx : (w.exec as).hearing? a with
  | none => simp
  | some x => simp [h x hx]

/-- An act that hears something there adds one if that is a refusal. -/
theorem refusalCount_concat_of_some {w : World} {n : Nat} {as : List Act} {a : Act} {x : Hearing}
    (hx : (w.exec as).hearing? a = some x) (hn : x.router = n) :
    w.refusalCount n (as ++ [a]) =
      w.refusalCount n as + if x.outcome.isRefusal then 1 else 0 := by
  rw [refusalCount, hearings_concat, List.countP_append, ← refusalCount, hx]
  simp [hn, List.countP_cons]

/-- All refusals on the router of a lone call are its own. -/
theorem Alone.refusalCount_eq {w : World} {n q : Nat} {acts : List Act} (h : w.Alone n q acts)
    {job : Job} (hjob : (w.exec acts).jobs[q]? = some job) (hn : job.router = n) :
    w.refusalCount n acts = (w.outcomes q acts).countP Outcome.isRefusal := by
  rw [refusalCount, outcomes, List.countP_map, heardBy, List.countP_filter]
  refine List.countP_congr ?_
  intro x hx
  have hiff : x.router = n ↔ x.caller = q :=
    ⟨h x hx, fun hq => (router_of_mem_hearings hx (hq ▸ hjob)).trans hn⟩
  simp [hiff, and_comm]

/-- The pace of a lone call on the router `r`, as it was when the schedule began. -/
structure Pace (w : World) (n : Nat) (r : Router) (q : Nat) (acts : List Act) : Prop where
  /-- All refusals are advances. -/
  count : w.advanceCount n acts = w.refusalCount n acts
  /-- The attempts are a tour of the ring. -/
  targets : (w.exec acts).targets q = r.tour ((w.exec acts).targets q).length
  /-- The attempt in flight is where the pointer is. -/
  inFlight : ∀ (job : Job) (attempt target : Nat) (arrived : Option Planned),
    (w.exec acts).jobs[q]? = some job → job.call.phase = .inFlight attempt target arrived →
      target = r.ahead (w.refusalCount n acts)

/-- At its pace a lone call moves the pointer once for every refusal. -/
theorem Pace.router? {w : World} (hw : w.WellFormed) {n : Nat} {r : Router}
    (hr : w.router? n = some r) {q : Nat} {acts : List Act} (h : w.Pace n r q acts) :
    (w.exec acts).router? n = some (r.moved (w.refusalCount n acts)) := by
  rw [← h.count]
  exact lead_exec hr (hw.lead_lt n r hr) acts

/-- One more act keeps refusals and advances equal, since the pointer is where the attempt was sent.
-/
theorem Pace.count_concat {w : World} (hw : w.WellFormed) {n : Nat} {r : Router}
    (hr : w.router? n = some r) {q : Nat} {acts : List Act} {a : Act} (h : w.Pace n r q acts)
    (halone : w.Alone n q (acts ++ [a])) :
    w.advanceCount n (acts ++ [a]) = w.refusalCount n (acts ++ [a]) := by
  have hrouter := h.router? hw hr
  rw [advanceCount_concat, h.count]
  cases hx : (w.exec acts).hearing? a with
  | none =>
    rw [refusalCount_concat_of_none (by simp [hx])]
    simp [advances, hx]
  | some x =>
    rw [advances_of_hearing hx hrouter]
    by_cases hn : x.router = n
    · obtain ⟨-, job, -, p, hjob, -, -, hphase, -, -⟩ := hearing?_eq_some hx
      rw [halone.last hx hn] at hjob
      have htarget := h.inFlight job _ _ _ hjob hphase
      rw [refusalCount_concat_of_some hx hn]
      simp [hn, htarget]
    · rw [refusalCount_concat_of_none (by simpa [hx] using hn)]
      simp [hn]

/-- **One more act keeps the pace** of the attempts. -/
theorem Pace.concat {w : World} (hw : w.WellFormed) {n : Nat} {r : Router}
    (hr : w.router? n = some r) {q : Nat} (hq : w.jobs.length ≤ q) {acts : List Act} {a : Act}
    (h : w.Pace n r q acts) (halone : w.Alone n q (acts ++ [a])) {job : Job}
    (hjob : ((w.exec acts).act a).jobs[q]? = some job) (hn : job.router = n) :
    ((w.exec acts).act a).targets q = r.tour (((w.exec acts).act a).targets q).length ∧
    ∀ attempt target arrived, job.call.phase = .inFlight attempt target arrived →
      target = r.ahead (w.refusalCount n (acts ++ [a])) := by
  -- where the call itself hears nothing, nobody does
  have hquiet : (∀ x, (w.exec acts).hearing? a = some x → x.caller ≠ q) →
      w.refusalCount n (acts ++ [a]) = w.refusalCount n acts := fun hunheard =>
    refusalCount_concat_of_none fun x hx hxn => hunheard x hx (halone.last hx hxn)
  cases was_of_act hjob with
  | started act_eq router new job_eq unsent =>
    rw [targets_of_unsent unsent, (hw.exec acts).targets_eq_nil (by omega)]
    refine ⟨rfl, ?_⟩
    intro attempt target arrived hphase
    rw [job_eq] at hphase
    cases hphase
  | kept before unsent unheard =>
    rw [targets_of_unsent unsent, hquiet unheard]
    exact ⟨h.targets, fun attempt target arrived => h.inFlight job attempt target arrived before⟩
  | arrived act_eq before delivered job_eq unsent unheard =>
    obtain ⟨attempt, place, hphase, rfl⟩ := Call.deliver?_eq_some delivered
    rw [targets_of_unsent unsent, hquiet unheard]
    refine ⟨h.targets, ?_⟩
    intro attempt' target arrived hphase'
    rw [job_eq] at hphase'
    cases hphase'
    exact h.inFlight _ _ _ _ before hphase
  | @worked old r' m act_eq before router piece job_eq sent =>
    have hold : old.router = n := by rw [← hn, job_eq]
    obtain rfl : r' = r.moved (w.refusalCount n acts) := by
      rw [hold, h.router? hw hr] at router
      exact (Option.some.inj router).symm
    rw [targets_of_sendings sent, job_eq]
    cases piece with
    | exhausted | withdrawn | interrupted | concluded =>
      simpa using h.targets
    | refused =>
      simpa [Move.sendings, Call.refusal_sendings] using h.targets
    | @sent attempt phase =>
      -- as many attempts have been sent as refusals have been heard
      have hcount : ((w.exec acts).targets q).length = w.refusalCount n acts := by
        obtain ⟨r₀, -, hcourse⟩ := course_exec hw hq acts before
        have halone' : w.Alone n q acts := halone.of_append
        rw [halone'.refusalCount_eq before hold]
        rw [phase] at hcourse
        cases hcourse with
        | poised refused asked =>
          have hall : ∀ o ∈ w.outcomes q acts, o.isRefusal = true := by
            intro o ho
            obtain ⟨x, hx, rfl⟩ := List.mem_map.mp ho
            exact refused x hx
          rw [List.countP_eq_length.mpr hall, asked, outcomes, List.length_map, List.length_map]
      have hunheard : (w.exec acts).hearing? a = none := by
        rw [act_eq, hearing?_work before (hold ▸ h.router? hw hr), Call.heard?_of_poised _ phase]
        rfl
      rw [hquiet (by simp [hunheard])]
      constructor
      · simp only [Call.send_sendings, List.map_cons, List.map_nil, Router.moved_lead,
          List.length_append, List.length_singleton, Router.tour_succ]
        rw [← h.targets, hcount]
      · intro attempt' target arrived hphase
        cases hphase
        rfl

/-- **A lone call keeps pace with the pointer.** -/
theorem pace {w : World} (hw : w.WellFormed) {n : Nat} {r : Router} (hr : w.router? n = some r)
    {q : Nat} (hq : w.jobs.length ≤ q) {acts : List Act}
    (hon : ∀ job : Job, (w.exec acts).jobs[q]? = some job → job.router = n)
    (halone : w.Alone n q acts) : w.Pace n r q acts := by
  induction acts using List.reverseRecOn with
  | nil =>
    refine ⟨rfl, ?_, ?_⟩
    · rw [exec_nil, hw.targets_eq_nil hq]
      rfl
    · intro job _ _ _ hjob
      exact absurd hjob (not_job hq)
  | append_singleton acts a ih =>
    -- the router of a call does not change, so it was this one before
    have hbefore : ∀ job : Job, (w.exec acts).jobs[q]? = some job → job.router = n := by
      intro job hjob
      obtain ⟨job', hjob', hsame⟩ := continues_act hjob a
      rw [← hsame.router]
      exact hon job' (by rw [exec_concat]; exact hjob')
    have hpace := ih hbefore halone.of_append
    have hstep : ∀ job : Job, ((w.exec acts).act a).jobs[q]? = some job → _ := fun job hjob =>
      hpace.concat hw hr hq halone hjob (hon job (by rw [exec_concat]; exact hjob))
    refine ⟨hpace.count_concat hw hr halone, ?_, ?_⟩
    · rw [exec_concat]
      cases hjob : ((w.exec acts).act a).jobs[q]? with
      | some job => exact (hstep job hjob).1
      | none =>
        -- the call has not begun
        rw [((hw.exec acts).act a).targets_eq_nil (List.getElem?_eq_none_iff.mp hjob)]
        rfl
    · intro job attempt target arrived hjob
      rw [exec_concat] at hjob
      exact (hstep job hjob).2 attempt target arrived

end World

/-! ## The first final outcome -/

section Stream

variable {o : Nat → Outcome}

/-- Outcomes before the first final one are refusals. -/
theorem countP_isRefusal {k : Nat} (h : ∀ i < k, (o i).isRefusal = true) :
    ((List.range k).map o).countP Outcome.isRefusal = k := by
  have hall : ∀ x ∈ (List.range k).map o, x.isRefusal = true := by
    intro x hx
    obtain ⟨i, hi, rfl⟩ := List.mem_map.mp hx
    exact h i (List.mem_range.mp hi)
  rw [List.countP_eq_length.mpr hall]
  simp

variable {size heard : Nat} {result : Except Fault Reply}

/-- **The fate by a stream of outcomes.** A call that meets the outcomes of a stream ends with the
first final one, or when there is none within the budget. -/
theorem Fate.of_stream (h : Fate size ((List.range heard).map o) result) :
    (∀ k ≤ size, (∀ i < k, (o i).isRefusal = true) → (o k).isRefusal = false →
      heard = k + 1 ∧ result = (o k).mapError Fault.transport) ∧
    ((∀ i ≤ size, (o i).isRefusal = true) →
      heard = size + 1 ∧ result = .error (.clusterUnreachable (size + 1) size)) := by
  cases h with
  | exhausted refused spent =>
    have hheard : heard = size + 1 := by simpa using spent
    refine ⟨?_, fun _ => ⟨hheard, rfl⟩⟩
    intro k hk _ hfinal
    have : (o k).isRefusal = true :=
      refused _ (List.mem_map.mpr ⟨k, List.mem_range.mpr (by omega), rfl⟩)
    rw [this] at hfinal
    cases hfinal
  | @concluded before last eq refused final within =>
    -- the final outcome is the one after those before it
    have hheard : heard = before.length + 1 := by simpa using congrArg List.length eq
    rw [hheard, List.range_succ, List.map_append] at eq
    obtain ⟨hbefore, hlast⟩ := List.append_inj eq (by simp)
    obtain rfl : o before.length = last := by simpa using hlast
    have hrefused : ∀ i < before.length, (o i).isRefusal = true := by
      intro i hi
      refine refused _ ?_
      rw [← hbefore]
      exact List.mem_map.mpr ⟨i, List.mem_range.mpr hi, rfl⟩
    constructor
    · intro k _ hfirst hfinal
      have hle : ¬ k < before.length := fun hlt => by
        rw [hrefused k hlt] at hfinal
        cases hfinal
      have hge : ¬ before.length < k := fun hlt => by
        rw [hfirst _ hlt] at final
        cases final
      obtain rfl : k = before.length := by omega
      exact ⟨hheard, rfl⟩
    · intro hall
      rw [hall _ within] at final
      cases final

end Stream

/-! ## Visits -/

/-- A call, and what happens after its start. -/
structure Visit where
  id : String
  handle : Handle
  purpose : Purpose
  token : Option String := none
  script : List Planned := []
  rest : List Act

namespace Visit

/-- The schedule of a visit. -/
def acts (v : Visit) : List Act :=
  .start v.id v.handle v.purpose v.token v.script :: v.rest

/-- The request that all attempts of the call send. -/
def request (v : Visit) (r : Router) : Request :=
  r.roster.request (v.purpose.draft v.handle.stream r.roster.tenant)

/-- The attempts of a tour of the ring. -/
def round (v : Visit) (r : Router) (length : Nat) : List Sending :=
  (r.tour length).map fun place => ⟨place, r.roster.endpoint place, v.request r⟩

end Visit

namespace World

/-- A visit to a router by a client that has it, while no other call on it hears anything. -/
structure Hosts (w : World) (n : Nat) (v : Visit) : Prop where
  router : v.handle.router = n
  alone : w.Alone n w.jobs.length v.acts

section Hosts

variable {w : World} {n : Nat} {r : Router} {v : Visit}

/-- A visit begins with a call that has not sent anything. -/
theorem job_of_start (hr : w.router? n = some r) (hv : v.handle.router = n) :
    (w.act (.start v.id v.handle v.purpose v.token v.script)).jobs[w.jobs.length]? =
      some ⟨v.id, n, v.purpose,
        { request := v.request r, token := v.token, script := v.script }⟩ := by
  subst hv
  exact started_job hr v.id v.purpose v.token v.script

/-- The call of a visit stays on its router, with its request and its token. -/
theorem job_of_visit (hr : w.router? n = some r) (hv : v.handle.router = n) :
    ∃ job, (w.exec v.acts).jobs[w.jobs.length]? = some job ∧ job.router = n ∧
      job.call.request = v.request r ∧ job.call.token = v.token := by
  obtain ⟨job, hjob, hsame⟩ := continues_exec (job_of_start hr hv) v.rest
  exact ⟨job, hjob, hsame.router, hsame.request, hsame.token⟩

/-- After a visit the pointer has moved by the refusals, and the attempts are a round of the ring.
-/
theorem Hosts.visit (hw : w.WellFormed) (hr : w.router? n = some r) (h : w.Hosts n v) :
    (w.exec v.acts).router? n = some (r.moved (w.refusalCount n v.acts)) ∧
      ∃ k, (w.exec v.acts).sendings w.jobs.length = v.round r k := by
  obtain ⟨job, hjob, hn, hrequest, -⟩ := job_of_visit hr h.router
  have hon : ∀ job' : Job, (w.exec v.acts).jobs[w.jobs.length]? = some job' → job'.router = n := by
    intro job' hjob'
    obtain rfl := Option.some.inj (hjob.symm.trans hjob')
    exact hn
  have hpace := pace hw hr (Nat.le_refl _) hon h.alone
  have hrouter := hpace.router? hw hr
  refine ⟨hrouter, ((w.exec v.acts).targets w.jobs.length).length, ?_⟩
  rw [sendings_exec hw (Nat.le_refl _) _ hjob (hn ▸ hrouter), hrequest, Visit.round,
    ← hpace.targets]
  rfl

/-- **One visit, by the stream of outcomes that the call meets.** -/
theorem Hosts.of_stream (hw : w.WellFormed) (hr : w.router? n = some r) (h : w.Hosts n v)
    {job : Job} {result : Except Fault Reply} {o : Nat → Outcome} {heard : Nat}
    (hfinish : w.Finishes v.acts w.jobs.length job result)
    (ho : w.outcomes w.jobs.length v.acts = (List.range heard).map o) :
    (∀ k ≤ r.roster.size, (∀ i < k, (o i).isRefusal = true) → (o k).isRefusal = false →
      (w.exec v.acts).sendings w.jobs.length = v.round r (k + 1) ∧
      result = (o k).mapError Fault.transport ∧
      (w.exec v.acts).router? n = some (r.moved k)) ∧
    ((∀ i ≤ r.roster.size, (o i).isRefusal = true) →
      (w.exec v.acts).sendings w.jobs.length = v.round r (r.roster.size + 1) ∧
      result = .error (.clusterUnreachable (r.roster.size + 1) r.roster.size) ∧
      (w.exec v.acts).router? n = some (r.moved (r.roster.size + 1))) := by
  obtain ⟨hrouter, length, hsent⟩ := h.visit hw hr
  obtain ⟨job', hjob', hn, -, -⟩ := job_of_visit hr h.router
  obtain rfl := Option.some.inj (hjob'.symm.trans hfinish.found)
  obtain ⟨r', hr', hfate, -⟩ := hfinish.fate hw
  rw [hn, hrouter] at hr'
  obtain rfl := Option.some.inj hr'
  rw [ho, Router.moved_roster] at hfate
  obtain ⟨hfinal, hspent⟩ := hfate.of_stream
  -- an attempt for each outcome
  have hlength : length = heard := by
    have := hfinish.sendings_length hw
    rw [hsent, ho] at this
    simpa [Visit.round] using this
  have hcount := h.alone.refusalCount_eq hjob' hn
  rw [ho] at hcount
  rw [hrouter, hsent, hlength, hcount]
  constructor
  · intro k hk hrefused hlast
    obtain ⟨rfl, hresult⟩ := hfinal k hk hrefused hlast
    refine ⟨rfl, hresult, ?_⟩
    rw [List.range_succ, List.map_append, List.countP_append, countP_isRefusal hrefused]
    simp [hlast]
  · intro hrefused
    obtain ⟨rfl, hresult⟩ := hspent hrefused
    refine ⟨rfl, hresult, ?_⟩
    rw [countP_isRefusal fun i hi => hrefused i (by omega)]

end Hosts

end World

/-! ## A call that is answered finishes -/

/-- A response that brings about an outcome. -/
def Planned.of : Outcome → Planned
  | .ok r => ⟨.reply r, none⟩
  | .error f => ⟨.failure f.unreachable (some f.endpoint) f.reason, none⟩

@[simp] theorem Call.outcomeAt_of (r : Router) (place : Nat) (o : Outcome) :
    Call.outcomeAt r place (.of o) = o := by
  cases o <;> rfl

/-- The call at a place sends an attempt, its outcome arrives and the call hears it. -/
def Act.round (q : Nat) (o : Outcome) : List Act :=
  [.work q, .answer q (.of o), .work q]

/-- A call that is answered with the outcomes of a stream, one for each attempt of its budget. -/
def Visit.answered (id : String) (handle : Handle) (purpose : Purpose) (q budget : Nat)
    (o : Nat → Outcome) : Visit where
  id
  handle
  purpose
  rest := (List.range budget).flatMap (fun i => Act.round q (o i)) ++ [.work q]

namespace World

/-- A call without a token that has no response in store. -/
structure Awaits (w : World) (q : Nat) (job : Job) : Prop where
  found : w.jobs[q]? = some job
  token : job.call.token = none
  script : job.call.script = []

/-- A call without a token is never cancelled. -/
theorem Awaits.isCancelled {w w' : World} {q : Nat} {job : Job} (h : w.Awaits q job) :
    w'.isCancelled job.call = false := by
  simp [World.isCancelled, h.token]

/-- **A round.** An attempt is sent and answered, and its outcome is heard. The call ends with it or
is ready for the next attempt. -/
theorem Awaits.round {w : World} {q : Nat} {job : Job} (h : w.Awaits q job) {r : Router}
    (hr : w.router? job.router = some r) {attempt : Nat}
    (hphase : job.call.phase = .poised attempt) (hleft : attempt ≤ r.roster.budget)
    (o : Outcome) :
    (∃ job', (w.exec (Act.round q o)).Awaits q job' ∧ job'.router = job.router ∧
      (job'.call.phase = .poised (attempt + 1) ∨ ∃ result, job'.call.phase = .ended result)) ∧
    ∃ x, w.hearings (Act.round q o) = [x] ∧ x.caller = q ∧ x.outcome = o := by
  -- the three acts of a round: send, answer, hear
  obtain ⟨hsent, hquiet⟩ := work_of_poised h.found hr h.isCancelled hphase hleft
  have hwaiting : (job.call.send r attempt).call.phase = .inFlight attempt r.lead none := by
    simp [h.script]
  have harrived := answer_of_waiting hsent hwaiting (.of o)
  obtain ⟨r₁, hr₁, -⟩ := router?_act_roster hr (.work q)
  obtain ⟨r₂, hr₂, -⟩ := router?_act_roster hr₁ (.answer q (.of o))
  obtain ⟨hreceived, hheard⟩ := work_of_arrived harrived hr₂ (by
    simp [World.isCancelled, Call.send, h.token]) rfl
  rw [Call.receive_call, Call.outcomeAt_of] at hreceived
  rw [Call.outcomeAt_of] at hheard
  constructor
  · refine ⟨_, ⟨hreceived, h.token, ?_⟩, rfl, ?_⟩
    · simp [Call.send, h.script]
    · cases o.isRefusal with
      | true => exact .inl rfl
      | false => exact .inr ⟨_, rfl⟩
  · refine ⟨⟨q, job.router, attempt, r.lead, o⟩, ?_, rfl, rfl⟩
    have hnone : (w.act (.work q)).hearing? (.answer q (.of o)) = none := rfl
    simp only [Act.round, hearings, along, List.filterMap_cons, hquiet, hnone, hheard,
      List.filterMap_nil]

/-- Whoever hears something along a schedule works in it. -/
theorem work_mem_of_mem_hearings {w : World} {acts : List Act} {x : Hearing}
    (hx : x ∈ w.hearings acts) : Act.work x.caller ∈ acts := by
  obtain ⟨before, a, after, rfl, hh⟩ := mem_hearings.mp hx
  obtain ⟨rfl, -⟩ := hearing?_eq_some hh
  simp

section Answered

variable {w : World} {n : Nat} {r : Router} {handle : Handle}

/-- **A call that is answered again and again gets on**: after so many refusals it has asked as many
nodes, and sends the next attempt. -/
theorem progress (id : String) (purpose : Purpose) (o : Nat → Outcome)
    (hr : w.router? n = some r) (hn : handle.router = n) {k : Nat} (hk : k ≤ r.roster.budget) :
    let q := w.jobs.length
    let acts := Act.start id handle purpose none [] ::
      (List.range k).flatMap fun i => Act.round q (o i)
    ∃ job, (w.exec acts).Awaits q job ∧ job.router = n ∧
      ∃ heard, w.outcomes q acts = (List.range heard).map o ∧
        ((∃ result, job.call.phase = .ended result) ∨
          heard = k ∧ job.call.phase = .poised (k + 1)) := by
  intro q
  induction k with
  | zero =>
    let v : Visit := { id, handle, purpose, rest := [] }
    have hjob := job_of_start (v := v) hr hn
    exact ⟨_, ⟨hjob, rfl, rfl⟩, rfl, 0, rfl, .inr ⟨rfl, rfl⟩⟩
  | succ k ih =>
    obtain ⟨job, hawaits, hrouter, heard, hheard, hstate⟩ := ih (Nat.le_of_succ_le hk)
    rw [List.range_succ, List.flatMap_append, List.flatMap_singleton, ← List.cons_append]
    intro acts
    simp only [acts, exec_append, outcomes_append, hheard]
    rcases hstate with ⟨result, hended⟩ | ⟨rfl, hpoised⟩
    · -- a call that has ended takes no further answer
      obtain ⟨hkept, hnothing⟩ := ended_exec hawaits.found hended (Act.round q (o k))
      refine ⟨job, ⟨hkept, hawaits.token, hawaits.script⟩, hrouter, heard, ?_,
        .inl ⟨result, hended⟩⟩
      rw [outcomes, hnothing]
      simp
    · obtain ⟨r', hr', hroster⟩ : ∃ r', (w.exec (Act.start id handle purpose none [] ::
          (List.range heard).flatMap fun i => Act.round q (o i))).router? job.router = some r' ∧
          r'.roster = r.roster := by
        rw [hrouter]
        exact router?_exec_roster hr _
      -- one round more
      obtain ⟨⟨job', hawaits', hrouter', hstate'⟩, x, hx, hcaller, houtcome⟩ :=
        hawaits.round hr' hpoised (by rw [hroster]; exact hk) (o heard)
      refine ⟨job', hawaits', hrouter'.trans hrouter, heard + 1, ?_, ?_⟩
      · rw [outcomes, heardBy, hx, List.range_succ, List.map_append]
        simp [hcaller, houtcome]
      · rcases hstate' with hpoised' | hended'
        · exact .inr ⟨rfl, hpoised'⟩
        · exact .inl hended'

/-- **A call that is answered finishes**, with the first outcomes of the stream. -/
theorem answered_finishes (id : String) (purpose : Purpose) (o : Nat → Outcome)
    (hr : w.router? n = some r) (hn : handle.router = n) :
    let v := Visit.answered id handle purpose w.jobs.length r.roster.budget o
    w.Hosts n v ∧ ∃ job result heard, w.Finishes v.acts w.jobs.length job result ∧
      w.outcomes w.jobs.length v.acts = (List.range heard).map o := by
  intro v
  have halone : w.Alone n w.jobs.length v.acts := by
    intro x hx _
    have hmem := work_mem_of_mem_hearings hx
    have hcaller : (∃ i, i < r.roster.budget) ∧ x.caller = w.jobs.length ∨
        x.caller = w.jobs.length := by
      simpa [v, Visit.acts, Visit.answered, Act.round] using hmem
    rcases hcaller with ⟨-, hcaller⟩ | hcaller <;> exact hcaller
  refine ⟨⟨hn, halone⟩, ?_⟩
  obtain ⟨job, hawaits, hrouter, heard, hheard, hstate⟩ :=
    progress id purpose o hr hn (Nat.le_refl _)
  -- the piece of work after the last answer ends a call that is still ready for an attempt
  have hacts : v.acts = (Act.start id handle purpose none [] ::
      (List.range r.roster.budget).flatMap fun i => Act.round w.jobs.length (o i)) ++
        [.work w.jobs.length] := rfl
  rw [hacts]
  generalize (Act.start id handle purpose none [] :: _ : List Act) = acts at *
  rcases hstate with ⟨result, hended⟩ | ⟨rfl, hpoised⟩
  · obtain ⟨hkept, hnothing⟩ := ended_exec hawaits.found hended [.work w.jobs.length]
    refine ⟨job, result, heard, ⟨Nat.le_refl _, ?_, hended, .inl hawaits.isCancelled⟩, ?_⟩
    · rw [exec_append]
      exact hkept
    · rw [outcomes_append, hheard, outcomes, hnothing]
      simp
  · obtain ⟨r', hr', hroster⟩ := router?_exec_roster hr acts
    rw [← hrouter] at hr'
    have hspent : r'.roster.budget < r.roster.budget + 1 := by
      rw [hroster]
      omega
    have hmove := Call.move_of_spent hpoised hspent ((w.exec acts).isCancelled job.call)
    have hact := act_work_eq hawaits.found hr' hmove
    let ended : Job := { job with call := { job.call with
      phase := .ended (.error (.clusterUnreachable r'.roster.budget r'.roster.size)) } }
    have hended : (w.exec (acts ++ [.work w.jobs.length])).jobs[w.jobs.length]? = some ended := by
      rw [exec_concat, hact]
      exact jobs_after_self hawaits.found _
    refine ⟨ended, _, r.roster.budget, ⟨Nat.le_refl _, hended, rfl, .inl ?_⟩, ?_⟩
    · simp [World.isCancelled, ended, hawaits.token]
    · rw [outcomes, heardBy_concat_work hawaits.found hr', Call.heard?_of_poised _ hpoised]
      simpa [outcomes] using hheard

end Answered

/-! ## One call after another -/

/-- Visits one after another. -/
def HostsAll (w : World) (n : Nat) : List Visit → Prop
  | [] => True
  | v :: vs => w.Hosts n v ∧ HostsAll (w.exec v.acts) n vs

/-- **The pointer after a number of visits.** -/
theorem HostsAll.router? {w : World} (hw : w.WellFormed) {n : Nat} {r : Router}
    (hr : w.router? n = some r) {vs : List Visit} (h : w.HostsAll n vs) :
    (w.exec (vs.flatMap Visit.acts)).router? n =
      some (r.moved (w.refusalCount n (vs.flatMap Visit.acts))) := by
  induction vs generalizing w r with
  | nil => simp [hr, Router.moved_zero (hw.lead_lt n r hr)]
  | cons v vs ih =>
    obtain ⟨hfirst, hrest⟩ := h
    have hmoved := (hfirst.visit hw hr).1
    rw [List.flatMap_cons, exec_append, refusalCount_append,
      ih (hw.exec v.acts) hmoved hrest, Router.moved_moved]

/-- **Calls that do not overlap.** On any router of any well-formed world:

* a call that nobody cancels and that has the router to itself makes a tour of the ring from where
  the pointer is. It ends with the first final outcome, one attempt for each outcome so far, and
  leaves the pointer at the last node it asked; or its budget is refused to the last attempt, and
  it leaves the pointer at the place after the one where it began;
* whatever the outcomes are, a call that is given them does end;
* calls one after another begin where the last one has left the pointer, and the pointer is always
  as many steps ahead as refusals have been heard. -/
theorem lone_calls {w : World} (hw : w.WellFormed) {n : Nat} {r : Router}
    (hr : w.router? n = some r) :
    (∀ (v : Visit) (job : Job) (result : Except Fault Reply) (o : Nat → Outcome) (heard : Nat),
      w.Hosts n v → w.Finishes v.acts w.jobs.length job result →
      w.outcomes w.jobs.length v.acts = (List.range heard).map o →
        (∀ k ≤ r.roster.size, (∀ i < k, (o i).isRefusal = true) → (o k).isRefusal = false →
          (w.exec v.acts).sendings w.jobs.length = v.round r (k + 1) ∧
          result = (o k).mapError Fault.transport ∧
          (w.exec v.acts).router? n = some (r.moved k)) ∧
        ((∀ i ≤ r.roster.size, (o i).isRefusal = true) →
          (w.exec v.acts).sendings w.jobs.length = v.round r (r.roster.size + 1) ∧
          result = .error (.clusterUnreachable (r.roster.size + 1) r.roster.size) ∧
          (w.exec v.acts).router? n = some (r.moved 1))) ∧
    (∀ (id : String) (handle : Handle) (purpose : Purpose) (o : Nat → Outcome),
      handle.router = n →
        let v := Visit.answered id handle purpose w.jobs.length r.roster.budget o
        w.Hosts n v ∧ ∃ job result heard, w.Finishes v.acts w.jobs.length job result ∧
          w.outcomes w.jobs.length v.acts = (List.range heard).map o) ∧
    (∀ (vs : List Visit) (v : Visit), w.HostsAll n vs →
      (w.exec (vs.flatMap Visit.acts)).Hosts n v →
        let before := vs.flatMap Visit.acts
        (w.exec before).router? n = some (r.moved (w.refusalCount n before)) ∧
        (w.exec (before ++ v.acts)).router? n =
          some (r.moved (w.refusalCount n (before ++ v.acts))) ∧
        ∃ k, (w.exec (before ++ v.acts)).sendings (w.exec before).jobs.length =
          v.round (r.moved (w.refusalCount n before)) k) := by
  refine ⟨?_, ?_, ?_⟩
  · intro v job result o heard hv hfinish ho
    -- once around the ring and one step is one step
    rw [← r.moved_round]
    exact hv.of_stream hw hr hfinish ho
  · intro id handle purpose o hn
    exact answered_finishes id purpose o hr hn
  · intro vs v hvs hv before
    have hbefore := hvs.router? hw hr
    obtain ⟨hafter, hsent⟩ := hv.visit (hw.exec before) hbefore
    rw [exec_append, refusalCount_append, ← Router.moved_moved]
    exact ⟨hbefore, hafter, hsent⟩

/-- A call that is refused by the first of two nodes. -/
def refusedOnce : Visit :=
  .answered "x" ⟨0, .nil⟩ (.operation .backlog) 0 3 fun i =>
    if i = 0 then .error ⟨true, "http://a", "connection refused"⟩ else .ok ⟨500, []⟩

/-- The first node is not reached, and the second one replies: there are two attempts, and the
pointer stays on the second. -/
theorem lone_call_refused_once :
    (pair 0).Hosts 0 refusedOnce ∧ ∃ job,
      (pair 0).Finishes refusedOnce.acts 0 job (.ok ⟨500, []⟩) ∧
      ((pair 0).exec refusedOnce.acts).sendings 0 = refusedOnce.round ⟨.pair, 0⟩ 2 ∧
      ((pair 0).exec refusedOnce.acts).router? 0 = some ⟨.pair, 1⟩ := by
  have hwf : (pair 0).WellFormed := .pair (by decide)
  obtain ⟨hone, hanswered, -⟩ := lone_calls hwf (n := 0) (r := ⟨.pair, 0⟩) rfl
  obtain ⟨hhosts, job, result, heard, hfinish, ho⟩ :=
    hanswered "x" ⟨0, .nil⟩ (.operation .backlog) (fun i =>
      if i = 0 then .error ⟨true, "http://a", "connection refused"⟩ else .ok ⟨500, []⟩) rfl
  obtain ⟨hfinal, -⟩ := hone refusedOnce job result _ heard hhosts hfinish ho
  obtain ⟨hsent, hresult, hrouter⟩ := hfinal 1 (by decide) (by decide) (by decide)
  refine ⟨hhosts, job, ?_, hsent, hrouter⟩
  rw [hresult] at hfinish
  exact hfinish

end World

end ClusterClient
