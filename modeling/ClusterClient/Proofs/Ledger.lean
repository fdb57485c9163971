import ClusterClient.Proofs.Schedule

/-!
# The ledger of a schedule: what is heard and what is sent

The history of a world keeps what was sent, but not the outcomes that calls have taken note of.
This module records those as well, act by act.

## The architecture

* **`World.hearing?`**, **`World.hearings`**: the outcome that an act makes a call take note of,
  and all of them along a schedule.
* **`World.sendings`**: the attempts that a call has sent, from the history.
* **`World.after`** and **`World.act_work_cases`**: a piece of work as an act, with the call, its
  router and its token looked up, split into the branches of `Call.Piece`.
-/

namespace ClusterClient

/-! ## What is heard -/

/-- An outcome of which a call takes note. -/
structure Hearing where
  /-- The place of the call in the list of calls. -/
  caller : Nat
  /-- The number of its router. -/
  router : Nat
  attempt : Nat
  /-- The place that the attempt was sent to. -/
  target : Nat
  outcome : Outcome

/-- What a call takes note of in its next piece of work: the number of the attempt, its target
and the outcome. -/
def Call.heard? (c : Call) (router : Router) (cancelled : Bool) : Option (Nat × Nat × Outcome) :=
  match c.phase with
  | .inFlight attempt target (some p) =>
    if cancelled then none else some (attempt, target, Call.outcomeAt router target p)
  | _ => none

namespace Call

variable {c : Call} {attempt target : Nat} (r : Router)

/-- A call that is about to send hears nothing. -/
theorem heard?_of_poised (hp : c.phase = .poised attempt) (cancelled : Bool) :
    c.heard? r cancelled = none := by
  simp [heard?, hp]

/-- A cancelled call hears nothing either: what has arrived is dropped. -/
theorem heard?_of_cancelled (c : Call) : c.heard? r true = none := by
  unfold heard?
  split <;> rfl

/-- What has arrived is heard with the attempt and the node that it answers. -/
theorem heard?_of_arrived {p : Planned} (hp : c.phase = .inFlight attempt target (some p)) :
    c.heard? r false = some (attempt, target, outcomeAt r target p) := by
  simp [heard?, hp]

end Call

/-! ## What is sent -/

/-- An attempt as it is sent: its target, the endpoint there and the request. -/
structure Sending where
  place : Nat
  endpoint : String
  request : Request

/-- The attempt whose sending an occurrence is. -/
def Occurrence.sending? : Occurrence → Option Sending
  | .sent place endpoint request => some ⟨place, endpoint, request⟩
  | _ => none

/-- The attempts that a piece of work sends: one or none. -/
def Move.sendings (m : Move) : List Sending :=
  m.events.filterMap Occurrence.sending?

namespace Call

/-- Noting a refusal sends nothing. -/
theorem refusal_sendings (endpoint : String) (v : Verdict) :
    (refusal endpoint v).filterMap Occurrence.sending? = [] := by
  cases v <;> rfl

@[simp] theorem finish_phase (c : Call) (r : Router) (before : List Occurrence)
    (result : Except Fault Reply) : (c.finish r before result).call.phase = .ended result := rfl

@[simp] theorem finish_sendings (c : Call) (r : Router) (result : Except Fault Reply) :
    (c.finish r [] result).sendings = [] := rfl

@[simp] theorem finish_noted_sendings (c : Call) (r : Router) (e : Entry)
    (result : Except Fault Reply) : (c.finish r [.noted e] result).sendings = [] := rfl

@[simp] theorem finish_fires_sendings (c : Call) (r : Router) (result : Except Fault Reply)
    (fires : Bool) : Move.sendings { c.finish r [] result with fires } = [] := rfl

@[simp] theorem send_phase (c : Call) (r : Router) (attempt : Nat) :
    (c.send r attempt).call.phase = .inFlight attempt r.lead c.script.head? := rfl

@[simp] theorem send_sendings (c : Call) (r : Router) (attempt : Nat) :
    (c.send r attempt).sendings = [⟨r.lead, r.leadEndpoint, c.request⟩] := rfl

@[simp] theorem receive_sendings (c : Call) (r : Router) (attempt place : Nat) (p : Planned) :
    (c.receive r attempt place p).sendings = [] := by
  unfold receive
  cases hv : (Verdict.ofOutcome (p.response.outcome (r.roster.endpoint place))).isRetryable with
  | true =>
    rw [if_pos hv]
    exact refusal_sendings _ _
  | false =>
    rw [if_neg (by simp [hv])]
    rfl

end Call

namespace World

/-- The outcome of which an act makes a call take note. -/
def hearing? (w : World) : Act → Option Hearing
  | .work q => do
    let job ← w.jobs[q]?
    let r ← w.router? job.router
    let (attempt, target, outcome) ← job.call.heard? r (w.isCancelled job.call)
    return ⟨q, job.router, attempt, target, outcome⟩
  | _ => none

/-- All outcomes that are taken note of along a schedule, in order. -/
def hearings (w : World) (acts : List Act) : List Hearing :=
  (w.along acts).filterMap fun x => x.1.hearing? x.2

/-- Those of one call. -/
def heardBy (w : World) (q : Nat) (acts : List Act) : List Hearing :=
  (w.hearings acts).filter fun h => h.caller = q

theorem hearings_append (w : World) (as bs : List Act) :
    w.hearings (as ++ bs) = w.hearings as ++ (w.exec as).hearings bs := by
  simp only [hearings, along_append, List.filterMap_append]

theorem hearings_concat (w : World) (as : List Act) (a : Act) :
    w.hearings (as ++ [a]) = w.hearings as ++ ((w.exec as).hearing? a).toList := by
  simp only [hearings, along_concat, List.filterMap_append]
  cases hx : (w.exec as).hearing? a <;> simp [hx]

/-- An act by which a call hears nothing leaves what it has heard. -/
theorem heardBy_concat_of_none {w : World} {q : Nat} {as : List Act} {a : Act}
    (h : ∀ x, (w.exec as).hearing? a = some x → x.caller ≠ q) :
    w.heardBy q (as ++ [a]) = w.heardBy q as := by
  rw [heardBy, hearings_concat, List.filter_append, ← heardBy]
  cases hx : (w.exec as).hearing? a with
  | none => simp
  | some x => simp [h x hx]

/-- Something is heard along a run if one of its acts hears it. -/
theorem mem_hearings {w : World} {acts : List Act} {h : Hearing} :
    h ∈ w.hearings acts ↔ ∃ before a after, acts = before ++ a :: after ∧
      (w.exec before).hearing? a = some h := by
  induction acts generalizing w with
  | nil => simp [hearings]
  | cons a as ih =>
    rw [← List.singleton_append, hearings_append, List.mem_append, ih]
    have hhead : h ∈ w.hearings [a] ↔ w.hearing? a = some h := by simp [hearings, along]
    rw [hhead]
    constructor
    · rintro (hh | ⟨before, b, after, rfl, hh⟩)
      · exact ⟨[], a, as, rfl, hh⟩
      · exact ⟨a :: before, b, after, rfl, hh⟩
    · rintro ⟨_ | ⟨b, before⟩, c, after, heq, hh⟩
      · cases heq
        exact .inl hh
      · cases heq
        exact .inr ⟨before, c, after, rfl, hh⟩

theorem mem_heardBy {w : World} {q : Nat} {acts : List Act} {h : Hearing} :
    h ∈ w.heardBy q acts ↔ h ∈ w.hearings acts ∧ h.caller = q := by
  simp [heardBy]

/-- The attempts that the call at a place has sent, in order. -/
def sendings (w : World) (q : Nat) : List Sending :=
  w.history.filterMap fun report =>
    if report.place = q then report.occurrence.sending? else none

/-- Where these attempts went. -/
def targets (w : World) (q : Nat) : List Nat :=
  (w.sendings q).map Sending.place

theorem length_targets (w : World) (q : Nat) : (w.targets q).length = (w.sendings q).length :=
  List.length_map _

/-- Further requests are further nodes. -/
theorem targets_of_sendings {w w' : World} {q : Nat} {ss : List Sending}
    (h : w'.sendings q = w.sendings q ++ ss) :
    w'.targets q = w.targets q ++ ss.map Sending.place := by
  rw [targets, h, List.map_append, targets]

theorem targets_of_unsent {w w' : World} {q : Nat} (h : w'.sendings q = w.sendings q) :
    w'.targets q = w.targets q := by
  rw [targets, h, targets]

/-! ## One piece of work -/

/-- The world after a piece of work of the call at a place. -/
def after (w : World) (q : Nat) (job : Job) (m : Move) : World :=
  { w with
    routers := w.routers.set job.router m.router
    jobs := w.jobs.set q { job with call := m.call }
    fired := w.firedBy job.call m.fires
    history := w.history ++ m.events.map (⟨q, job.id, ·⟩) }

/-- A job that is found is one of the world's. -/
theorem job_lt {w : World} {q : Nat} {job : Job} (h : w.jobs[q]? = some job) :
    q < w.jobs.length :=
  (List.getElem?_eq_some_iff.mp h).1

theorem not_job {w : World} {q : Nat} {job : Job} (hq : w.jobs.length ≤ q) :
    w.jobs[q]? ≠ some job :=
  fun h => absurd (job_lt h) (Nat.not_lt.mpr hq)

/-- After its move a job has the call that the move leaves. -/
theorem jobs_after_self {w : World} {q : Nat} {old job : Job} (hold : w.jobs[q]? = some old)
    (m : Move) : (w.after q job m).jobs[q]? = some { job with call := m.call } := by
  simp [after, job_lt hold]

/-- The inversion of work: there is a job, its router, and a move that the call makes. -/
theorem work?_eq_some_iff {w w' : World} {q : Nat} :
    w.work? q = some w' ↔ ∃ job r m, w.jobs[q]? = some job ∧ w.router? job.router = some r ∧
      job.call.move r (w.isCancelled job.call) = some m ∧ w' = w.after q job m := by
  simp only [work?, Option.bind_eq_bind, Option.bind_eq_some_iff, Option.pure_def,
    Option.some.injEq, after]
  constructor
  · rintro ⟨job, hjob, r, hr, m, hm, rfl⟩
    exact ⟨job, r, m, hjob, hr, hm, rfl⟩
  · rintro ⟨job, r, m, hjob, hr, hm, rfl⟩
    exact ⟨job, hjob, r, hr, m, hm, rfl⟩

/-- What work hears is what the call hears on its router. -/
theorem hearing?_work {w : World} {q : Nat} {job : Job} {r : Router}
    (hjob : w.jobs[q]? = some job) (hr : w.router? job.router = some r) :
    w.hearing? (.work q) = (job.call.heard? r (w.isCancelled job.call)).map
      fun x => ⟨q, job.router, x.1, x.2.1, x.2.2⟩ := by
  simp only [hearing?, hjob, hr, Option.bind_eq_bind, Option.bind_some]
  cases job.call.heard? r (w.isCancelled job.call) <;> rfl

/-- What a call has heard after its work. -/
theorem heardBy_concat_work {w : World} {q : Nat} {as : List Act} {job : Job} {r : Router}
    (hjob : (w.exec as).jobs[q]? = some job) (hr : (w.exec as).router? job.router = some r) :
    w.heardBy q (as ++ [.work q]) = w.heardBy q as ++
      ((job.call.heard? r ((w.exec as).isCancelled job.call)).map
        fun x => ⟨q, job.router, x.1, x.2.1, x.2.2⟩).toList := by
  rw [heardBy, hearings_concat, List.filter_append, ← heardBy, hearing?_work hjob hr]
  cases job.call.heard? r ((w.exec as).isCancelled job.call) <;> simp

/-- **What a hearing comes from.** The caller has the attempt in flight, the response is there and
the token has not fired. -/
theorem hearing?_eq_some {w : World} {a : Act} {h : Hearing} (hh : w.hearing? a = some h) :
    a = .work h.caller ∧ ∃ job r p, w.jobs[h.caller]? = some job ∧ job.router = h.router ∧
      w.router? h.router = some r ∧ job.call.phase = .inFlight h.attempt h.target (some p) ∧
      w.isCancelled job.call = false ∧ h.outcome = Call.outcomeAt r h.target p := by
  cases a with
  | work q =>
    simp only [hearing?, Option.bind_eq_bind, Option.bind_eq_some_iff, Option.pure_def,
      Option.some.injEq] at hh
    obtain ⟨job, hjob, r, hr, ⟨attempt, target, outcome⟩, hheard, rfl⟩ := hh
    unfold Call.heard? at hheard
    split at hheard
    · next p hphase =>
      split at hheard
      · cases hheard
      · next hc =>
        cases hheard
        exact ⟨rfl, job, r, p, hjob, rfl, hr, hphase, by simpa using hc, rfl⟩
    · cases hheard
  | _ => cases hh

/-- A piece of work that does nothing hears nothing. -/
theorem hearing?_of_work?_eq_none {w : World} {q : Nat} (h : w.work? q = none) :
    w.hearing? (.work q) = none := by
  cases hh : w.hearing? (.work q) with
  | none => rfl
  | some x =>
    obtain ⟨ha, job, r, p, hjob, hrouter, hr, hphase, -, -⟩ := hearing?_eq_some hh
    obtain rfl : q = x.caller := by simpa using ha
    obtain ⟨m, hm⟩ := Option.isSome_iff_exists.mp
      (Call.move_isSome_of_arrived hphase r (w.isCancelled job.call))
    rw [← hrouter] at hr
    rw [work?_eq_some_iff.mpr ⟨job, r, m, hjob, hr, hm, rfl⟩] at h
    cases h

theorem act_work_of_some {w w' : World} {q : Nat} (h : w.work? q = some w') :
    w.act (.work q) = w' := by
  simp [act, work, h]

/-- Work is the move of the call, and nothing else. -/
theorem act_work_eq {w : World} {q : Nat} {job : Job} {r : Router} {m : Move}
    (hjob : w.jobs[q]? = some job) (hr : w.router? job.router = some r)
    (hm : job.call.move r (w.isCancelled job.call) = some m) :
    w.act (.work q) = w.after q job m :=
  act_work_of_some (work?_eq_some_iff.mpr ⟨job, r, m, hjob, hr, hm, rfl⟩)

/-- **A piece of work, as an act.** Either there is nothing to do, or the call takes one of its six
branches. -/
theorem act_work_cases (w : World) (q : Nat) :
    (w.work? q = none ∧ w.act (.work q) = w) ∨
      ∃ job r m, w.jobs[q]? = some job ∧ w.router? job.router = some r ∧
        Call.Piece job.call r (w.isCancelled job.call) m ∧
        w.act (.work q) = w.after q job m := by
  cases hw : w.work? q with
  | none => exact .inl ⟨rfl, by simp [act, work, hw]⟩
  | some w' =>
    obtain ⟨job, r, m, hjob, hr, hm, rfl⟩ := work?_eq_some_iff.mp hw
    exact .inr ⟨job, r, m, hjob, hr, Call.piece_of_move hm, act_work_of_some hw⟩

/-- What is on record about one call grows by its own work only, whatever is looked for. -/
theorem filterMap_history_after {α : Type} (f : Occurrence → Option α) (w : World) (q q' : Nat)
    (job : Job) (m : Move) :
    ((w.after q job m).history.filterMap fun report =>
        if report.place = q' then f report.occurrence else none) =
      (w.history.filterMap fun report =>
        if report.place = q' then f report.occurrence else none) ++
        if q = q' then m.events.filterMap f else [] := by
  simp only [after, List.filterMap_append, List.filterMap_map, Function.comp_def]
  congr 1
  split <;> simp

/-- A move adds its requests to those of its own call. -/
theorem sendings_after (w : World) (q q' : Nat) (job : Job) (m : Move) :
    (w.after q job m).sendings q' = w.sendings q' ++ if q = q' then m.sendings else [] :=
  filterMap_history_after Occurrence.sending? w q q' job m

/-! ### What a call does next, by its phase -/

variable {w : World} {q : Nat} {job : Job} {r : Router} {attempt : Nat}

/-- **Sending**: a call that is not cancelled and has attempts left asks the node at the pointer. -/
theorem work_of_poised (hjob : w.jobs[q]? = some job) (hr : w.router? job.router = some r)
    (hcancelled : w.isCancelled job.call = false) (hphase : job.call.phase = .poised attempt)
    (hleft : attempt ≤ r.roster.budget) :
    (w.act (.work q)).jobs[q]? = some { job with call := (job.call.send r attempt).call } ∧
      w.hearing? (.work q) = none := by
  have hmove : job.call.move r (w.isCancelled job.call) = some (job.call.send r attempt) := by
    rw [hcancelled]
    exact Call.move_of_poised hphase hleft
  rw [act_work_eq hjob hr hmove, hearing?_work hjob hr, Call.heard?_of_poised r hphase]
  exact ⟨jobs_after_self hjob _, rfl⟩

/-- An answer is what arrives for the attempt in flight. -/
theorem answer_of_waiting (hjob : w.jobs[q]? = some job) {place : Nat}
    (hphase : job.call.phase = .inFlight attempt place none) (p : Planned) :
    (w.act (.answer q p)).jobs[q]? =
      some { job with call := { job.call with phase := .inFlight attempt place (some p) } } := by
  have hq : q < w.jobs.length := job_lt hjob
  have hdeliver : job.call.deliver? p =
      some { job.call with phase := .inFlight attempt place (some p) } := by
    simp [Call.deliver?, hphase]
  simp only [act, answer, hjob, hdeliver]
  simp [hq]

/-- **Receiving**: what has arrived for a call that is not cancelled is handled. -/
theorem work_of_arrived (hjob : w.jobs[q]? = some job) (hr : w.router? job.router = some r)
    (hcancelled : w.isCancelled job.call = false) {place : Nat} {p : Planned}
    (hphase : job.call.phase = .inFlight attempt place (some p)) :
    (w.act (.work q)).jobs[q]? =
        some { job with call := (job.call.receive r attempt place p).call } ∧
      w.hearing? (.work q) =
        some ⟨q, job.router, attempt, place, Call.outcomeAt r place p⟩ := by
  have hmove : job.call.move r (w.isCancelled job.call) =
      some (job.call.receive r attempt place p) := by
    rw [hcancelled]
    exact Call.move_of_arrived hphase r
  rw [act_work_eq hjob hr hmove, hearing?_work hjob hr, hcancelled,
    Call.heard?_of_arrived r hphase]
  exact ⟨jobs_after_self hjob _, rfl⟩

end World

end ClusterClient
