import Mathlib.Data.List.Induction
import ClusterClient.Proofs.Ledger

/-!
# What an act changes, and what it leaves alone

## The architecture

* **`World.router?_act`**: a router after an act is the router before it, moved on from the place
  of a refusal if the act is the hearing of one by a call on this router. `router?_act_of_none`
  covers routers that the act creates.
* **`World.Was`** and **`World.was_of_act`**: a call after an act is a new one, or the call before
  the act with nothing, an arrival or a piece of work between them. **`World.call_induction`**
  follows one call through these four cases.
* **`World.continues_act`**: a call keeps its router, its purpose, its request and its token.
* **`World.isCancelled_act`**: tokens that have fired stay so, and calls keep their tokens.
-/

namespace ClusterClient

/-! ## Routers -/

namespace Router

@[simp] theorem leave_roster (r : Router) (place : Nat) : (r.leave place).roster = r.roster := by
  unfold leave; split <;> rfl

/-- The pointer moves on if it is still where it was read, and stays otherwise. -/
theorem leave_lead_eq (r : Router) (place : Nat) :
    (r.leave place).lead = if r.lead = place then r.roster.next r.lead else r.lead := by
  unfold leave
  split
  · next h => rw [h]
  · rfl

/-- The router after a call has heard an outcome: only a refusal moves it. -/
def hear (r : Router) (h : Hearing) : Router :=
  if h.outcome.isRefusal then r.leave h.target else r

@[simp] theorem hear_roster (r : Router) (h : Hearing) : (r.hear h).roster = r.roster := by
  unfold hear; split <;> simp

/-- Only refusals move the pointer. -/
theorem hear_of_final {r : Router} {h : Hearing} (ho : h.outcome.isRefusal = false) :
    r.hear h = r := by
  simp [hear, ho]

end Router

/-- **The effect of a piece of work on the router** is that of what it hears. -/
theorem Call.Piece.router_eq {c : Call} {r : Router} {cancelled : Bool} {m : Move}
    (h : Call.Piece c r cancelled m) :
    m.router = match c.heard? r cancelled with
      | some (_, target, outcome) => if outcome.isRefusal then r.leave target else r
      | none => r := by
  cases h with
  | exhausted phase | withdrawn phase | sent phase => simp [Call.heard?, phase, finish, send]
  | interrupted phase fired =>
    cases hp : c.heard? r cancelled with
    | none => rfl
    | some x =>
      unfold Call.heard? at hp
      simp only [phase, fired] at hp
      split at hp <;> simp at hp
  | refused phase unfired refusal => simp [Call.heard?, phase, unfired, refusal]
  | concluded phase unfired final => simp [Call.heard?, phase, unfired, final, finish]

namespace World

theorem router?_lt {w : World} {n : Nat} {r : Router} (hr : w.router? n = some r) :
    n < w.routers.length :=
  (List.getElem?_eq_some_iff.mp hr).1

/-- Only work changes a router. -/
theorem router?_act_of_ne_work {w : World} {n : Nat} {r : Router} (hr : w.router? n = some r)
    {a : Act} (ha : ∀ q, a ≠ .work q) : (w.act a).router? n = some r := by
  have hlt := router?_lt hr
  cases a with
  | start id handle purpose token script =>
    simp only [act, start]
    split <;> exact hr
  | answer place p =>
    simp only [act, answer]
    split
    · split <;> exact hr
    · exact hr
  | fire token => exact hr
  | share handle => exact hr
  | separate handle =>
    simp only [act, separate]
    split
    · simp only [router?, List.getElem?_append_left hlt]
      exact hr
    · exact hr
  | work q => exact absurd rfl (ha q)

/-- **A router after an act.** It has moved on only if the act is the hearing of a refusal by a
call on this router. -/
theorem router?_act {w : World} {n : Nat} {r : Router} (hr : w.router? n = some r) (a : Act) :
    (w.act a).router? n = some
      (match w.hearing? a with
      | some h => if h.router = n then r.hear h else r
      | none => r) := by
  rcases a.work_or with ⟨q, rfl⟩ | hne
  · rcases act_work_cases w q with ⟨hnone, hact⟩ | ⟨job, r', m, hjob, hr', hpiece, hact⟩
    · rw [hearing?_of_work?_eq_none hnone, hact]
      exact hr
    · -- the router is written back at the place of the call's own
      have hlt := router?_lt hr
      rw [hact, hearing?_work hjob hr']
      simp only [after, router?, List.getElem?_set]
      by_cases hn : job.router = n
      · subst hn
        obtain rfl : r' = r := by rw [hr] at hr'; exact (Option.some.inj hr').symm
        rw [if_pos rfl, if_pos hlt, hpiece.router_eq]
        cases hheard : job.call.heard? r' (w.isCancelled job.call) <;> simp [Router.hear]
      · rw [if_neg hn]
        cases hheard : job.call.heard? r' (w.isCancelled job.call) with
        | none => exact hr
        | some x =>
          simp only [Option.map_some, if_neg hn]
          exact hr
  · rw [router?_act_of_ne_work hr hne]
    cases a with
    | work q => exact absurd rfl (hne q)
    | _ => rfl

/-- A router that hears of no refusal stays as it is. -/
theorem router?_act_of_quiet {w : World} {n : Nat} {r : Router} (hr : w.router? n = some r)
    {a : Act} (ha : ∀ h, w.hearing? a = some h → h.router = n → h.outcome.isRefusal = false) :
    (w.act a).router? n = some r := by
  rw [router?_act hr]
  cases hh : w.hearing? a with
  | none => rfl
  | some h =>
    by_cases hn : h.router = n
    · simp only [if_pos hn, Router.hear_of_final (ha h hh hn)]
    · simp only [if_neg hn]

/-- No act changes the roster of a router. -/
theorem router?_act_roster {w : World} {n : Nat} {r : Router} (hr : w.router? n = some r)
    (a : Act) : ∃ r', (w.act a).router? n = some r' ∧ r'.roster = r.roster := by
  refine ⟨_, router?_act hr a, ?_⟩
  split
  · split <;> simp
  · rfl

/-- No run changes it either. -/
theorem router?_exec_roster {w : World} {n : Nat} {r : Router} (hr : w.router? n = some r)
    (acts : List Act) : ∃ r', (w.exec acts).router? n = some r' ∧ r'.roster = r.roster :=
  exec_induction (P := fun w' => ∃ r', w'.router? n = some r' ∧ r'.roster = r.roster)
    (fun _ a h => by
      obtain ⟨r', hr', hroster⟩ := h
      obtain ⟨r'', hr'', hroster'⟩ := router?_act_roster hr' a
      exact ⟨r'', hr'', hroster'.trans hroster⟩)
    ⟨r, hr, rfl⟩ acts

/-- A router that an act creates has the roster of another one and points to the first place. -/
theorem router?_act_of_none {w : World} {n : Nat} {r : Router} {a : Act}
    (hn : w.router? n = none) (hr : (w.act a).router? n = some r) :
    r.lead = 0 ∧ ∃ n' r', w.router? n' = some r' ∧ r.roster = r'.roster := by
  -- most acts keep the list of routers, so that no router comes into being
  have same : ∀ w' : World, w'.routers = w.routers → w'.router? n = some r → False := by
    intro w' hw' h
    rw [router?, hw', ← router?, hn] at h
    cases h
  cases a with
  | start id handle purpose token script =>
    refine absurd hr fun hr => same _ ?_ hr
    simp only [act, start]
    split <;> rfl
  | answer place p =>
    refine absurd hr fun hr => same _ ?_ hr
    simp only [act, answer]
    split
    · split <;> rfl
    · rfl
  | fire token => exact (same _ rfl hr).elim
  | share handle => exact (same _ rfl hr).elim
  | separate handle =>
    simp only [act, separate] at hr
    split at hr
    · next r' hr' =>
      have hge : w.routers.length ≤ n := List.getElem?_eq_none_iff.mp hn
      simp only [router?, List.getElem?_append_right hge] at hr
      cases hk : n - w.routers.length with
      | zero =>
        simp only [hk, List.getElem?_cons_zero, Option.some.injEq] at hr
        subst hr
        exact ⟨rfl, handle.router, r', hr', rfl⟩
      | succ k => simp [hk] at hr
    · rw [hn] at hr
      cases hr
  | work q =>
    rcases act_work_cases w q with ⟨-, hact⟩ | ⟨job, r', m, -, -, -, hact⟩
    · rw [hact, hn] at hr
      cases hr
    · -- setting an element does not lengthen the list
      have hge : w.routers.length ≤ n := List.getElem?_eq_none_iff.mp hn
      rw [hact, router?, after, List.getElem?_eq_none (by simpa using hge)] at hr
      cases hr

/-! ## Calls -/

theorem jobs_after_length (w : World) (q : Nat) (job : Job) (m : Move) :
    (w.after q job m).jobs.length = w.jobs.length := by
  simp [after]

/-- Jobs are never taken away. -/
theorem jobs_length_le_act (w : World) (a : Act) : w.jobs.length ≤ (w.act a).jobs.length := by
  cases a with
  | start id handle purpose token script =>
    simp only [act, start]
    split <;> simp
  | answer place p =>
    simp only [act, answer]
    split
    · split <;> simp
    · exact Nat.le_refl _
  | separate handle =>
    simp only [act, separate]
    split <;> exact Nat.le_refl _
  | work q =>
    rcases act_work_cases w q with ⟨-, hact⟩ | ⟨job, r, m, -, -, -, hact⟩
    · exact Nat.le_of_eq (by rw [hact])
    · exact Nat.le_of_eq (by rw [hact, jobs_after_length])
  | fire token => exact Nat.le_refl _
  | share handle => exact Nat.le_refl _

/-- Only work writes to the history. -/
theorem history_act_of_ne_work {w : World} {a : Act} (ha : ∀ q, a ≠ .work q) :
    (w.act a).history = w.history := by
  cases a with
  | start id handle purpose token script =>
    simp only [act, start]
    split <;> rfl
  | answer place p =>
    simp only [act, answer]
    split
    · split <;> rfl
    · rfl
  | separate handle =>
    simp only [act, separate]
    split <;> rfl
  | work q => exact absurd rfl (ha q)
  | fire token => rfl
  | share handle => rfl

/-- Only work sends. -/
theorem sendings_act_of_ne_work {w : World} {a : Act} (ha : ∀ q, a ≠ .work q) (q : Nat) :
    (w.act a).sendings q = w.sendings q := by
  rw [sendings, history_act_of_ne_work ha, sendings]

/-- What has happened stays on record. -/
theorem history_grows (w : World) (acts : List Act) :
    ∃ reports, (w.exec acts).history = w.history ++ reports := by
  induction acts using List.reverseRecOn with
  | nil => exact ⟨[], by simp⟩
  | append_singleton acts a ih =>
    obtain ⟨reports, hreports⟩ := ih
    rw [exec_concat]
    rcases a.work_or with ⟨q, rfl⟩ | hne
    · rcases act_work_cases (w.exec acts) q with ⟨-, hact⟩ | ⟨job, r, m, -, -, -, hact⟩
      · exact ⟨reports, by rw [hact, hreports]⟩
      · refine ⟨reports ++ m.events.map (⟨q, job.id, ·⟩), ?_⟩
        rw [hact, after, hreports, List.append_assoc]
    · exact ⟨reports, by rw [history_act_of_ne_work hne, hreports]⟩

/-- What has been sent stays sent. -/
theorem sendings_grow (w : World) (q : Nat) (acts : List Act) :
    ∃ ss, (w.exec acts).sendings q = w.sendings q ++ ss := by
  obtain ⟨reports, hreports⟩ := history_grows w acts
  exact ⟨_, by rw [sendings, hreports, List.filterMap_append, ← sendings]⟩

/-- **What sends an attempt**: a piece of work of a call that is ready for one. The pointer stays
where it is. -/
theorem sendings_act_of_ne {w : World} {a : Act} {q : Nat}
    (h : (w.act a).sendings q ≠ w.sendings q) :
    a = .work q ∧ ∃ job r attempt, w.jobs[q]? = some job ∧ w.router? job.router = some r ∧
      job.call.phase = .poised attempt ∧
      (w.act a).jobs[q]? = some { job with call := (job.call.send r attempt).call } ∧
      (w.act a).router? job.router = some r ∧
      (w.act a).sendings q = w.sendings q ++ [⟨r.lead, r.leadEndpoint, job.call.request⟩] := by
  rcases a.work_or with ⟨q', rfl⟩ | hne
  · rcases act_work_cases w q' with ⟨-, hact⟩ | ⟨job, r, m, hjob, hr, piece, hact⟩
    · exact absurd (by rw [hact]) h
    · have hsent := sendings_after w q' q job m
      rw [← hact] at hsent
      by_cases hq : q' = q
      · subst hq
        rw [if_pos rfl] at hsent
        cases piece with
        | @sent attempt phase =>
          -- the only piece of work that sends
          have hrouter := router?_act hr (.work q')
          rw [hearing?_work hjob hr, Call.heard?_of_poised r phase] at hrouter
          have hafter : (w.act (.work q')).jobs[q']? =
              some { job with call := (job.call.send r attempt).call } := by
            rw [hact]
            exact jobs_after_self hjob _
          exact ⟨rfl, job, r, attempt, hjob, hr, phase, hafter, hrouter, hsent⟩
        | exhausted | withdrawn | interrupted | concluded =>
          exact absurd (by simpa using hsent) h
        | refused =>
          exact absurd (by simpa [Move.sendings, Call.refusal_sendings] using hsent) h
      · rw [if_neg hq] at hsent
        exact absurd (by simpa using hsent) h
  · exact absurd (sendings_act_of_ne_work hne q) h

/-- Only work hears of outcomes. -/
theorem hearing?_of_ne_work {w : World} {a : Act} (ha : ∀ q, a ≠ .work q) :
    w.hearing? a = none := by
  cases a with
  | work q => exact absurd rfl (ha q)
  | _ => rfl

/-- Where a call after an act comes from. -/
inductive Was (w : World) (a : Act) (q : Nat) (job : Job) : Prop where
  /-- The act has started it. -/
  | started {id : String} {handle : Handle} {purpose : Purpose} {token : Option String}
      {script : List Planned} {r : Router} (act_eq : a = .start id handle purpose token script)
      (router : w.routerOf? handle = some r) (new : q = w.jobs.length)
      (job_eq : job = ⟨id, handle.router, purpose,
        { request := r.roster.request (purpose.draft handle.stream r.roster.tenant)
          token, script }⟩)
      (unsent : (w.act a).sendings q = w.sendings q)
      (unheard : ∀ h, w.hearing? a = some h → h.caller ≠ q)
  /-- The act does not concern it. -/
  | kept (before : w.jobs[q]? = some job) (unsent : (w.act a).sendings q = w.sendings q)
      (unheard : ∀ h, w.hearing? a = some h → h.caller ≠ q)
  /-- A response has arrived for it. -/
  | arrived {old : Job} {p : Planned} {call : Call} (act_eq : a = .answer q p)
      (before : w.jobs[q]? = some old) (delivered : old.call.deliver? p = some call)
      (job_eq : job = { old with call }) (unsent : (w.act a).sendings q = w.sendings q)
      (unheard : ∀ h, w.hearing? a = some h → h.caller ≠ q)
  /-- It has done a piece of work. -/
  | worked {old : Job} {r : Router} {m : Move} (act_eq : a = .work q)
      (before : w.jobs[q]? = some old) (router : w.router? old.router = some r)
      (piece : Call.Piece old.call r (w.isCancelled old.call) m)
      (job_eq : job = { old with call := m.call })
      (sent : (w.act a).sendings q = w.sendings q ++ m.sendings)

/-- A job that was there before an act other than work is where it was. -/
theorem kept_of_ne_work {w : World} {a : Act} {q : Nat} {job : Job} (ha : ∀ q, a ≠ .work q)
    (before : w.jobs[q]? = some job) : Was w a q job := by
  refine .kept before (sendings_act_of_ne_work ha q) fun h hh => ?_
  rw [hearing?_of_ne_work ha] at hh
  cases hh

/-- After an answer every job was there before, the one answered apart from what arrived. -/
theorem was_of_answer {w : World} {place q : Nat} {p : Planned} {job : Job}
    (hjob : (w.answer place p).jobs[q]? = some job) : Was w (.answer place p) q job := by
  have hkept : w.jobs[q]? = some job → Was w (.answer place p) q job :=
    kept_of_ne_work fun _ => Act.noConfusion
  unfold answer at hjob
  split at hjob
  · next old hold =>
    split at hjob
    · next call hcall =>
      simp only [List.getElem?_set] at hjob
      by_cases hq : place = q
      · subst hq
        rw [if_pos rfl] at hjob
        split at hjob
        · exact .arrived rfl hold hcall (Option.some.inj hjob).symm
            (sendings_act_of_ne_work (fun _ => Act.noConfusion) _) (fun _ hh => by cases hh)
        · cases hjob
      · rw [if_neg hq] at hjob
        exact hkept hjob
    · exact hkept hjob
  · exact hkept hjob

/-- The call that is started: the last one, with the request of its router for the caller's
draft. -/
theorem started_job {w : World} {handle : Handle} {r : Router} (hr : w.routerOf? handle = some r)
    (id : String) (purpose : Purpose) (token : Option String) (script : List Planned) :
    (w.act (.start id handle purpose token script)).jobs[w.jobs.length]? =
      some ⟨id, handle.router, purpose,
        { request := r.roster.request (purpose.draft handle.stream r.roster.tenant)
          token, script }⟩ := by
  simp [act, start, hr]

/-- After a start every job was there before, or is the new one. -/
theorem was_of_start {w : World} {q : Nat} {id : String} {handle : Handle} {purpose : Purpose}
    {token : Option String} {script : List Planned} {job : Job}
    (hjob : (w.start id handle purpose token script).jobs[q]? = some job) :
    Was w (.start id handle purpose token script) q job := by
  have hkept : w.jobs[q]? = some job → Was w (.start id handle purpose token script) q job :=
    kept_of_ne_work fun _ => Act.noConfusion
  unfold start at hjob
  split at hjob
  · next r hr =>
    by_cases hq : q < w.jobs.length
    · rw [List.getElem?_append_left hq] at hjob
      exact hkept hjob
    · rw [List.getElem?_append_right (by omega)] at hjob
      cases hk : q - w.jobs.length with
      | zero =>
        rw [hk] at hjob
        exact .started rfl hr (by omega) (Option.some.inj hjob).symm
          (sendings_act_of_ne_work (fun _ => Act.noConfusion) _) (fun _ hh => by cases hh)
      | succ k =>
        rw [hk] at hjob
        cases hjob
  · exact hkept hjob

/-- After work every job was there before, or is the one that worked. -/
theorem was_of_work {w : World} {place q : Nat} {job : Job}
    (hjob : (w.act (.work place)).jobs[q]? = some job) : Was w (.work place) q job := by
  rcases act_work_cases w place with ⟨hnone, hact⟩ | ⟨old, r, m, hold, hr, hpiece, hact⟩
  · rw [hact] at hjob
    refine .kept hjob (by rw [hact]) ?_
    intro h hh
    rw [hearing?_of_work?_eq_none hnone] at hh
    cases hh
  · -- the history and the list of calls change at the place of the working call only
    have hsent := sendings_after w place q old m
    rw [← hact] at hsent
    rw [hact] at hjob
    simp only [after, List.getElem?_set] at hjob
    by_cases hq : place = q
    · subst hq
      rw [if_pos rfl] at hjob hsent
      split at hjob
      · exact .worked rfl hold hr hpiece (Option.some.inj hjob).symm hsent
      · cases hjob
    · rw [if_neg hq] at hjob hsent
      refine .kept hjob (by simpa using hsent) ?_
      intro h hh
      obtain ⟨hwork, -⟩ := hearing?_eq_some hh
      have : place = h.caller := by simpa using hwork
      omega

/-- **Where the calls after an act come from.** -/
theorem was_of_act {w : World} {a : Act} {q : Nat} {job : Job}
    (hjob : (w.act a).jobs[q]? = some job) : Was w a q job := by
  cases a with
  | start id handle purpose token script => exact was_of_start hjob
  | answer place p => exact was_of_answer hjob
  | work place => exact was_of_work hjob
  | fire token => exact kept_of_ne_work (fun _ => Act.noConfusion) hjob
  | share handle => exact kept_of_ne_work (fun _ => Act.noConfusion) hjob
  | separate handle =>
    refine kept_of_ne_work (fun _ => Act.noConfusion) ?_
    simp only [act, separate] at hjob
    split at hjob <;> exact hjob

/-- **Following one call.** What an act makes true of a call, given that it was true before, is true
of the call after every schedule that has started it. -/
theorem call_induction {w : World} {q : Nat} (hq : w.jobs.length ≤ q)
    {P : List Act → Job → Prop}
    (step : ∀ acts a job, Was (w.exec acts) a q job →
      (∀ old, (w.exec acts).jobs[q]? = some old → P acts old) → P (acts ++ [a]) job)
    (acts : List Act) {job : Job} (hjob : (w.exec acts).jobs[q]? = some job) : P acts job := by
  induction acts using List.reverseRecOn generalizing job with
  | nil => exact absurd hjob (not_job hq)
  | append_singleton acts a ih =>
    rw [exec_concat] at hjob
    exact step acts a job (was_of_act hjob) fun old hold => ih hold

end World

/-! ## What a call keeps -/

/-- Request and token of a call never change. -/
theorem Call.Piece.same {c : Call} {r : Router} {cancelled : Bool} {m : Move}
    (h : Call.Piece c r cancelled m) : m.call.request = c.request ∧ m.call.token = c.token := by
  cases h <;> exact ⟨rfl, rfl⟩

/-- Only an attempt in flight that nothing has arrived for takes an outcome. -/
theorem Call.deliver?_eq_some {c c' : Call} {p : Planned} (h : c.deliver? p = some c') :
    ∃ attempt place, c.phase = .inFlight attempt place none ∧
      c' = { c with phase := .inFlight attempt place (some p) } := by
  unfold deliver? at h
  split at h
  · next attempt place hp =>
    cases h
    exact ⟨attempt, place, hp, rfl⟩
  · cases h

theorem Call.isEnded_iff {c : Call} : c.isEnded = true ↔ ∃ result, c.phase = .ended result := by
  unfold isEnded
  cases c.phase <;> simp

/-- A call at two moments: its name, its router and its purpose stay, and so do its request and its
token. -/
structure Job.Continues (old new : Job) : Prop where
  id : new.id = old.id
  router : new.router = old.router
  purpose : new.purpose = old.purpose
  request : new.call.request = old.call.request
  token : new.call.token = old.call.token

theorem Job.Continues.refl (job : Job) : job.Continues job :=
  ⟨rfl, rfl, rfl, rfl, rfl⟩

theorem Job.Continues.trans {a b c : Job} (hab : a.Continues b) (hbc : b.Continues c) :
    a.Continues c where
  id := hbc.id.trans hab.id
  router := hbc.router.trans hab.router
  purpose := hbc.purpose.trans hab.purpose
  request := hbc.request.trans hab.request
  token := hbc.token.trans hab.token

namespace World

/-- **A call continues**, whatever is done. -/
theorem continues_act {w : World} {q : Nat} {job : Job} (hjob : w.jobs[q]? = some job) (a : Act) :
    ∃ job', (w.act a).jobs[q]? = some job' ∧ job.Continues job' := by
  have hq : q < w.jobs.length := job_lt hjob
  have hq' : q < (w.act a).jobs.length := Nat.lt_of_lt_of_le hq (jobs_length_le_act w a)
  have hjob' := List.getElem?_eq_getElem hq'
  refine ⟨_, hjob', ?_⟩
  cases was_of_act hjob' with
  | started act_eq router new => omega
  | kept before =>
    obtain rfl := Option.some.inj (hjob.symm.trans before)
    exact .refl _
  | arrived act_eq before delivered job_eq =>
    obtain rfl := Option.some.inj (hjob.symm.trans before)
    obtain ⟨attempt, place, -, rfl⟩ := Call.deliver?_eq_some delivered
    rw [job_eq]
    exact ⟨rfl, rfl, rfl, rfl, rfl⟩
  | worked act_eq before router piece job_eq =>
    obtain rfl := Option.some.inj (hjob.symm.trans before)
    rw [job_eq]
    exact ⟨rfl, rfl, rfl, piece.same.1, piece.same.2⟩

/-- **A job goes on through every run**, with what was fixed at its start. -/
theorem continues_exec {w : World} {q : Nat} {job : Job} (hjob : w.jobs[q]? = some job)
    (acts : List Act) : ∃ job', (w.exec acts).jobs[q]? = some job' ∧ job.Continues job' :=
  exec_induction (P := fun w' => ∃ job', w'.jobs[q]? = some job' ∧ job.Continues job')
    (fun _ a h => by
      obtain ⟨job', hjob', hsame⟩ := h
      obtain ⟨job'', hjob'', hsame'⟩ := continues_act hjob' a
      exact ⟨job'', hjob'', hsame.trans hsame'⟩)
    ⟨job, hjob, .refl job⟩ acts

end World

namespace World

/-- What is heard by a call is heard on its router. -/
theorem router_of_mem_hearings {w : World} {acts : List Act} {x : Hearing} {job : Job}
    (hx : x ∈ w.hearings acts) (hjob : (w.exec acts).jobs[x.caller]? = some job) :
    x.router = job.router := by
  obtain ⟨before, a, after, rfl, hh⟩ := mem_hearings.mp hx
  obtain ⟨-, old, -, -, hold, hrouter, -⟩ := hearing?_eq_some hh
  obtain ⟨job', hjob', hsame⟩ := continues_exec hold (a :: after)
  rw [← exec_append] at hjob'
  obtain rfl := Option.some.inj (hjob.symm.trans hjob')
  rw [hsame.router, hrouter]

/-- A call that has ended stays as it is, and hears nothing. -/
theorem ended_act {w : World} {q : Nat} {job : Job} {result : Except Fault Reply}
    (hjob : w.jobs[q]? = some job) (hended : job.call.phase = .ended result) (a : Act) :
    (w.act a).jobs[q]? = some job ∧ ∀ h, w.hearing? a = some h → h.caller ≠ q := by
  obtain ⟨job', hjob', -⟩ := continues_act hjob a
  cases was_of_act hjob' with
  | started act_eq router new =>
    have := job_lt hjob
    omega
  | kept before unsent unheard =>
    obtain rfl := Option.some.inj (hjob.symm.trans before)
    exact ⟨hjob', unheard⟩
  | arrived act_eq before delivered =>
    obtain rfl := Option.some.inj (hjob.symm.trans before)
    obtain ⟨attempt, place, hphase, -⟩ := Call.deliver?_eq_some delivered
    rw [hended] at hphase
    cases hphase
  | worked act_eq before router piece =>
    obtain rfl := Option.some.inj (hjob.symm.trans before)
    cases piece with
    | exhausted phase | withdrawn phase | sent phase | interrupted phase | refused phase
    | concluded phase =>
      rw [hended] at phase
      cases phase

/-- **A job that has ended stays as it is** and hears nothing more. -/
theorem ended_exec {w : World} {q : Nat} {job : Job} {result : Except Fault Reply}
    (hjob : w.jobs[q]? = some job) (hended : job.call.phase = .ended result) (acts : List Act) :
    (w.exec acts).jobs[q]? = some job ∧ w.heardBy q acts = [] := by
  induction acts using List.reverseRecOn with
  | nil => exact ⟨hjob, rfl⟩
  | append_singleton acts a ih =>
    obtain ⟨hkept, hunheard⟩ := ended_act ih.1 hended a
    rw [exec_concat, heardBy_concat_of_none hunheard]
    exact ⟨hkept, ih.2⟩

/-- **What ends a call**: a piece of its own work. -/
theorem piece_of_ends {w : World} {a : Act} {q : Nat} {job : Job}
    (hjob : (w.act a).jobs[q]? = some job) (hended : job.call.isEnded = true)
    (hopen : ∀ old : Job, w.jobs[q]? = some old → old.call.isEnded = false) :
    a = .work q ∧ ∃ old r m, w.jobs[q]? = some old ∧ w.router? old.router = some r ∧
      Call.Piece old.call r (w.isCancelled old.call) m ∧ job = { old with call := m.call } := by
  cases was_of_act hjob with
  | started act_eq router new job_eq =>
    rw [job_eq] at hended
    cases hended
  | kept before =>
    rw [hopen job before] at hended
    cases hended
  | arrived act_eq before delivered job_eq =>
    obtain ⟨attempt, place, -, rfl⟩ := Call.deliver?_eq_some delivered
    rw [job_eq] at hended
    cases hended
  | @worked old r m act_eq before router piece job_eq =>
    exact ⟨act_eq, old, r, m, before, router, piece, job_eq⟩

/-- A token that has fired stays fired. -/
theorem fired_act {w : World} {token : String} (h : token ∈ w.fired) (a : Act) :
    token ∈ (w.act a).fired := by
  cases a with
  | start id handle purpose token' script =>
    simp only [act, start]
    split <;> exact h
  | answer place p =>
    simp only [act, answer]
    split
    · split <;> exact h
    · exact h
  | separate handle =>
    simp only [act, separate]
    split <;> exact h
  | fire token' => exact List.mem_cons_of_mem _ h
  | share handle => exact h
  | work q =>
    -- a call may fire its own token, which adds one
    rcases act_work_cases w q with ⟨-, hact⟩ | ⟨job, r, m, -, -, -, hact⟩
    · rw [hact]
      exact h
    · rw [hact]
      simp only [after, firedBy]
      split
      · split
        · exact List.mem_cons_of_mem _ h
        · exact h
      · exact h

/-- A cancelled call stays cancelled. -/
theorem isCancelled_act {w : World} {c c' : Call} (ht : c'.token = c.token)
    (h : w.isCancelled c = true) (a : Act) : (w.act a).isCancelled c' = true := by
  unfold isCancelled at h ⊢
  rw [ht]
  cases hc : c.token with
  | none => simp [hc] at h
  | some token =>
    simp only [hc, List.contains_iff_mem] at h ⊢
    exact fired_act h a

end World

end ClusterClient
