import ClusterClient.Proofs.Fate
import ClusterClient.Proofs.Stretch

/-!
# An unreachable cluster has been asked everywhere

A call reports the cluster unreachable when all attempts of its budget have been refused. Its own
attempts need not have gone to every node: while it waits others move the pointer, so that it may
meet the same node again and again and never see another. Yet the report is true. Each attempt of
the call costs one advance of the pointer at least, made by the call or by somebody else; advances
go round the ring place by place; and the budget is larger than the ring.

* **`World.refusal_of_lt_advanceCount`**: the sweep. Each advance is the refusal of the place that
  the pointer was at, so that many advances in a row are refusals of places in a row.
* **`World.advances_of_budget`**: a call that has spent its budget has seen as many advances since
  its first attempt was sent.
* **`World.Spans`**: the part of a schedule between the first attempt of a call and its return.
-/

namespace ClusterClient

theorem Router.exists_ahead {r : Router} (hlead : r.lead < r.roster.size) {place : Nat}
    (hplace : place < r.roster.size) : ∃ k < r.roster.size, r.ahead k = place := by
  by_cases hle : r.lead ≤ place
  · refine ⟨place - r.lead, by omega, ?_⟩
    rw [ahead, Nat.add_sub_cancel' hle, Nat.mod_eq_of_lt hplace]
  · -- once past the last place
    have hwrap : r.lead + (place + r.roster.size - r.lead) = place + r.roster.size := by omega
    refine ⟨place + r.roster.size - r.lead, by omega, ?_⟩
    rw [ahead, hwrap, Nat.add_mod_right, Nat.mod_eq_of_lt hplace]

/-- A call reports the cluster unreachable when it has no attempt left, and for no other reason. -/
theorem Call.Piece.spent_of_unreachable {c : Call} {r : Router} {cancelled : Bool} {m : Move}
    (h : Call.Piece c r cancelled m) {attempts nodes : Nat}
    (hphase : m.call.phase = .ended (.error (.clusterUnreachable attempts nodes))) :
    ∃ attempt, c.phase = .poised attempt ∧ r.roster.budget < attempt ∧
      attempts = r.roster.budget ∧ nodes = r.roster.size := by
  cases h with
  | exhausted phase spent =>
    cases hphase
    exact ⟨_, phase, spent, rfl, rfl⟩
  | withdrawn | interrupted | sent | refused => cases hphase
  | @concluded attempt place p phase unfired final =>
    obtain ⟨e, he⟩ := Outcome.transport_of_mapError (Phase.ended.inj hphase)
    cases he

namespace World

section Sweep

variable {w : World} {n q : Nat} {r : Router}

/-- **The sweep.** When the pointer has come further than some place ahead of it, a call has been
refused by that place. -/
theorem refusal_of_lt_advanceCount (hr : w.router? n = some r) (hlead : r.lead < r.roster.size)
    {acts : List Act} {k : Nat} (hk : k < w.advanceCount n acts) :
    ∃ x ∈ w.hearings acts, x.router = n ∧ x.outcome.isRefusal = true ∧ x.target = r.ahead k := by
  obtain ⟨before, a, after, rfl, hadvances, hcount⟩ := exists_advance hk
  have hrouter := lead_exec hr hlead before
  obtain ⟨x, hx, hn, hrefusal, htarget⟩ := exists_hearing_of_advances hadvances hrouter
  rw [hcount, Router.moved_lead] at htarget
  have hmem : x ∈ w.hearings (before ++ a :: after) :=
    mem_hearings.mpr ⟨before, a, after, rfl, hx⟩
  exact ⟨x, hmem, hn, hrefusal, htarget⟩

/-- As many advances as there are places have met a refusal at each of them. -/
theorem refusal_everywhere (hr : w.router? n = some r) (hlead : r.lead < r.roster.size)
    {acts : List Act} (hround : r.roster.size ≤ w.advanceCount n acts) {place : Nat}
    (hplace : place < r.roster.size) :
    ∃ x ∈ w.hearings acts, x.router = n ∧ x.outcome.isRefusal = true ∧ x.target = place := by
  obtain ⟨k, hk, hahead⟩ := Router.exists_ahead hlead hplace
  have hlt : k < w.advanceCount n acts := Nat.lt_of_lt_of_le hk hround
  obtain ⟨x, hx, hn, hrefusal, htarget⟩ := refusal_of_lt_advanceCount hr hlead hlt
  exact ⟨x, hx, hn, hrefusal, htarget.trans hahead⟩

/-- **Attempts cost advances**, counted from when the first of them was sent. -/
theorem advances_of_budget (hw : w.WellFormed) {attempt : Nat} {arrived : Option Planned} {job : Job}
    (hjob : w.jobs[q]? = some job) (hr : w.router? job.router = some r)
    (hphase : job.call.phase = .inFlight attempt r.lead arrived) (hfirst : w.targets q = [r.lead])
    {acts : List Act} {job' : Job} {attempt' : Nat} (hjob' : (w.exec acts).jobs[q]? = some job')
    (hready : job'.call.phase = .poised attempt') :
    ((w.exec acts).targets q).length ≤ w.advanceCount job.router acts := by
  have hhere : r.ahead 0 = r.lead := Nat.mod_eq_of_lt (hw.lead_lt _ r hr)
  have hstart : Stretch r 0 (w.targets q) job.call.phase [0] := by
    have hnil : Stretch r 0 [] (.poised attempt) [] := .nil r 0 fun _ _ _ => Phase.noConfusion
    have hsent := hnil.send arrived
    rw [hhere] at hsent
    rw [hfirst, hphase]
    exact hsent
  have hstarts : ∀ job₀ : Job, w.jobs[q]? = some job₀ → job₀.router = job.router →
      ∃ steps, Stretch r 0 (w.targets q) job₀.call.phase steps := by
    intro job₀ hjob₀ _
    obtain rfl := Option.some.inj (hjob.symm.trans hjob₀)
    exact ⟨[0], hstart⟩
  obtain ⟨job'', hjob'', hsame⟩ := continues_exec hjob acts
  obtain rfl := Option.some.inj (hjob'.symm.trans hjob'')
  obtain ⟨steps, hsteps⟩ := Stretch.exec hw hr hstarts acts hjob' hsame.router
  rw [hready] at hsteps
  exact hsteps.length_le_of_poised

end Sweep

/-! ## Between the first attempt and the return -/

/-- A part of a schedule lies between the sending of a call's first attempt and the call's last
piece of work. -/
structure Spans (w : World) (q : Nat) (before during : List Act) : Prop where
  unsent : (w.exec before).sendings q = []
  sent : ∃ s, (w.exec (before ++ [.work q])).sendings q = [s]
  pending : ∃ job, (w.exec (before ++ .work q :: during)).jobs[q]? = some job ∧
    job.call.isEnded = false
  ended : ∃ job, (w.exec (before ++ .work q :: during ++ [.work q])).jobs[q]? = some job ∧
    job.call.isEnded = true

variable {w : World} {q : Nat}

/-- **The moment of return.** A call that has ended did so in a piece of its own work. -/
theorem exists_return (hq : w.jobs.length ≤ q) {acts : List Act} {job : Job}
    (hjob : (w.exec acts).jobs[q]? = some job) (hended : job.call.isEnded = true) :
    ∃ before after old r m, acts = before ++ .work q :: after ∧
      (w.exec before).jobs[q]? = some old ∧ old.call.isEnded = false ∧
      (w.exec before).router? old.router = some r ∧
      Call.Piece old.call r ((w.exec before).isCancelled old.call) m ∧
      job = { old with call := m.call } ∧
      ((w.exec before).act (.work q)).jobs[q]? = some job := by
  let Ended (w' : World) : Prop := ∃ job : Job, w'.jobs[q]? = some job ∧ job.call.isEnded = true
  have hstart : ¬ Ended w := by
    rintro ⟨job₀, hjob₀, -⟩
    exact not_job hq hjob₀
  obtain ⟨before, a, after, rfl, hopen, job₁, hjob₁, hended₁⟩ :=
    exists_first (P := Ended) hstart ⟨job, hjob, hended⟩
  have hopen' : ∀ old : Job, (w.exec before).jobs[q]? = some old → old.call.isEnded = false :=
    fun old hold => Bool.eq_false_iff.mpr fun h => hopen ⟨old, hold, h⟩
  obtain ⟨rfl, old, r, m, hold, hr, piece, job_eq⟩ := piece_of_ends hjob₁ hended₁ hopen'
  -- what has ended stays as it is
  obtain ⟨result, hresult⟩ := Call.isEnded_iff.mp hended₁
  have hkept := (ended_exec hjob₁ hresult after).1
  rw [← exec_cons, ← exec_append] at hkept
  obtain rfl := Option.some.inj (hkept.symm.trans hjob)
  exact ⟨before, after, old, r, m, rfl, hold, hopen' old hold, hr, piece, job_eq, hjob₁⟩

/-- **The moment of the first attempt.** -/
theorem exists_first_sending (hw : w.WellFormed) (hq : w.jobs.length ≤ q) {acts : List Act}
    (hsent : (w.exec acts).sendings q ≠ []) :
    ∃ (before after : List Act) (job : Job) (r : Router) (attempt : Nat),
      acts = before ++ .work q :: after ∧
      (w.exec before).sendings q = [] ∧
      (w.exec (before ++ [.work q])).router? job.router = some r ∧
      (w.exec (before ++ [.work q])).jobs[q]? =
        some { job with call := (job.call.send r attempt).call } ∧
      (w.exec (before ++ [.work q])).sendings q =
        [⟨r.lead, r.leadEndpoint, job.call.request⟩] := by
  have hstart : ¬ w.sendings q ≠ [] := not_not.mpr (hw.sendings_eq_nil hq)
  obtain ⟨before, a, after, rfl, hunsent, hthen⟩ :=
    exists_first (P := fun w' => w'.sendings q ≠ []) hstart hsent
  have hnil : (w.exec before).sendings q = [] := not_not.mp hunsent
  obtain ⟨rfl, job, r, attempt, -, -, -, hjob, hr, hfirst⟩ :=
    sendings_act_of_ne (hnil.symm ▸ hthen)
  rw [hnil, List.nil_append, ← exec_concat] at hfirst
  rw [← exec_concat] at hjob hr
  exact ⟨before, after, job, r, attempt, rfl, hnil, hr, hjob, hfirst⟩

/-- **The attempt that an outcome belongs to.** What a call hears is the outcome of an attempt that
it has sent, to the endpoint at the place that is named. -/
theorem sending_of_hearing (hw : w.WellFormed) {acts : List Act} {a : Act} {x : Hearing}
    (hx : (w.exec acts).hearing? a = some x) (hnew : w.jobs.length ≤ x.caller) {r : Router}
    (hr : (w.exec acts).router? x.router = some r) :
    ∃ s, ((w.exec acts).sendings x.caller)[x.attempt - 1]? = some s ∧ s.place = x.target ∧
      s.endpoint = r.roster.endpoint x.target := by
  obtain ⟨-, job, -, p, hjob, hn, -, hphase, -, -⟩ := hearing?_eq_some hx
  rw [← hn] at hr
  obtain ⟨r', -, hcourse⟩ := course_exec hw hnew acts hjob
  have hsendings := sendings_exec hw hnew acts hjob hr
  rw [hphase] at hcourse
  generalize hattempt : x.attempt = attempt at hcourse
  cases hcourse with
  | inFlight refused asked within =>
    -- it is the last attempt so far
    have htarget : ((w.exec acts).targets x.caller)[(w.heardBy x.caller acts).length]? =
        some x.target := by
      rw [asked, List.getElem?_append_right (by simp)]
      simp
    rw [hsendings, Nat.add_sub_cancel, List.getElem?_map, htarget]
    exact ⟨_, rfl, rfl, rfl⟩

/-- The attempt is on record ever after. -/
theorem sending_of_mem_hearings (hw : w.WellFormed) {before during : List Act} {x : Hearing}
    (hx : x ∈ (w.exec before).hearings during) (hnew : w.jobs.length ≤ x.caller) {r : Router}
    (hr : (w.exec before).router? x.router = some r) (after : List Act) :
    ∃ s, ((w.exec (before ++ during ++ after)).sendings x.caller)[x.attempt - 1]? = some s ∧
      s.place = x.target ∧ s.endpoint = r.roster.endpoint x.target := by
  obtain ⟨upto, a, rest, rfl, hxa⟩ := mem_hearings.mp hx
  obtain ⟨r', hr', hroster⟩ := router?_exec_roster hr upto
  rw [← exec_append] at hxa hr'
  obtain ⟨s, hs, hplace, hendpoint⟩ := sending_of_hearing hw hxa hnew hr'
  have hacts : before ++ (upto ++ a :: rest) ++ after = before ++ upto ++ (a :: rest ++ after) := by
    simp
  have hlt := (List.getElem?_eq_some_iff.mp hs).1
  obtain ⟨ss, hss⟩ := sendings_grow (w.exec (before ++ upto)) x.caller (a :: rest ++ after)
  rw [← exec_append, ← hacts] at hss
  refine ⟨s, ?_, hplace, by rw [hendpoint, hroster]⟩
  rw [hss, List.getElem?_append_left hlt]
  exact hs

/-- **An exhausted call has seen more advances than there are places** between its first attempt and
its return. -/
theorem advances_of_exhaustion (hw : w.WellFormed) (hq : w.jobs.length ≤ q) {acts : List Act}
    {job : Job} (hjob : (w.exec acts).jobs[q]? = some job) {attempts nodes : Nat}
    (hphase : job.call.phase = .ended (.error (.clusterUnreachable attempts nodes))) :
    ∃ (before during after : List Act) (r : Router),
      acts = before ++ .work q :: during ++ .work q :: after ∧ w.Spans q before during ∧
      (w.exec (before ++ [.work q])).router? job.router = some r ∧
      attempts = r.roster.size + 1 ∧ nodes = r.roster.size ∧
      r.roster.size < (w.exec (before ++ [.work q])).advanceCount job.router during := by
  have hended : job.call.isEnded = true := Call.isEnded_iff.mpr ⟨_, hphase⟩
  obtain ⟨upto, after, old, r, m, rfl, hold, hopen, hr, piece, rfl, hreturn⟩ :=
    exists_return hq hjob hended
  obtain ⟨attempt, hready, hspent, rfl, rfl⟩ := piece.spent_of_unreachable hphase
  -- the call has sent its whole budget of attempts
  have hlength : ((w.exec upto).targets q).length = r.roster.size + 1 := by
    obtain ⟨r', hr', hcourse⟩ := course_exec hw hq upto hold
    obtain rfl := Option.some.inj (hr'.symm.trans hr)
    rw [hready] at hcourse
    cases hcourse with
    | poised refused asked within =>
      have hspent : r'.roster.size + 1 < (w.heardBy q upto).length + 1 := hspent
      rw [asked, List.length_map]
      omega
  have hsent : (w.exec upto).sendings q ≠ [] := by
    intro hnil
    simp [targets, hnil] at hlength
  obtain ⟨before, during, job₀, r₀, attempt₀, rfl, hunsent, hr₀, hjob₀, hfirst⟩ :=
    exists_first_sending hw hq hsent
  have hexec : w.exec (before ++ .work q :: during) = (w.exec (before ++ [.work q])).exec during := by
    rw [← exec_append]
    simp
  -- its router is the one whose pointer it read first
  obtain ⟨job₁, hjob₁, hsame⟩ := continues_exec hjob₀ during
  obtain ⟨r₁, hr₁, hroster⟩ := router?_exec_roster hr₀ during
  rw [← hexec] at hjob₁ hr₁
  obtain rfl := Option.some.inj (hold.symm.trans hjob₁)
  have hn : old.router = job₀.router := hsame.router
  obtain rfl := Option.some.inj (hr₁.symm.trans (hn ▸ hr))
  have hfirst' : (w.exec (before ++ [.work q])).targets q = [r₀.lead] := by
    rw [targets, hfirst]
    rfl
  have hadvances := advances_of_budget (hw.exec _) hjob₀ hr₀ (Call.send_phase _ _ _) hfirst'
    (hexec ▸ hold) hready
  rw [← hexec, hlength, hroster] at hadvances
  have hspans : w.Spans q before during :=
    ⟨hunsent, ⟨_, hfirst⟩, ⟨old, hold, hopen⟩, ⟨_, by rw [exec_concat]; exact hreturn, hended⟩⟩
  refine ⟨before, during, after, r₀, rfl, hspans, hn ▸ hr₀, ?_, ?_, hn ▸ hadvances⟩
  · rw [← hroster]
    rfl
  · rw [hroster]

/-- **Unreachable means refused everywhere.** Whenever a call reports that the cluster is
unreachable, whatever other calls there are and however they interleave, each place of the ring has
refused an attempt, of this call or of another one on the same router, between the first attempt of
the call and its return. -/
theorem refused_everywhere_of_unreachable (hw : w.WellFormed) (hq : w.jobs.length ≤ q)
    {acts : List Act} {job : Job} (hjob : (w.exec acts).jobs[q]? = some job)
    {result : Except Fault Reply} (hphase : job.call.phase = .ended result)
    {attempts nodes : Nat}
    (hanswer : job.purpose.conclude result = .error (.clusterUnreachable attempts nodes)) :
    ∃ (before during after : List Act) (r : Router),
      acts = before ++ .work q :: during ++ .work q :: after ∧ w.Spans q before during ∧
      (w.exec (before ++ [.work q])).router? job.router = some r ∧
      attempts = r.roster.size + 1 ∧ nodes = r.roster.size ∧
      ∀ place < r.roster.size, ∃ x ∈ (w.exec (before ++ [.work q])).hearings during,
        x.router = job.router ∧ x.target = place ∧ x.outcome.isRefusal = true ∧
        (w.jobs.length ≤ x.caller → ∃ s, ((w.exec acts).sendings x.caller)[x.attempt - 1]? = some s ∧
          s.place = place ∧ s.endpoint = r.roster.endpoint place) := by
  obtain rfl := Purpose.result_of_unreachable hanswer
  obtain ⟨before, during, after, r, rfl, hspans, hr, hattempts, hnodes, hadvances⟩ :=
    advances_of_exhaustion hw hq hjob hphase
  have hlead : r.lead < r.roster.size := (hw.exec _).lead_lt _ r hr
  refine ⟨before, during, after, r, rfl, hspans, hr, hattempts, hnodes, ?_⟩
  intro place hplace
  obtain ⟨x, hx, hn, hrefusal, rfl⟩ := refusal_everywhere hr hlead (Nat.le_of_lt hadvances) hplace
  refine ⟨x, hx, hn, rfl, hrefusal, ?_⟩
  intro hnew
  have hacts : before ++ .work q :: during ++ .work q :: after =
      before ++ [.work q] ++ during ++ .work q :: after := by simp
  rw [hacts]
  exact sending_of_mem_hearings hw hx hnew (hn ▸ hr) (.work q :: after)

/-- Two calls, of which the first always finds the pointer at the first place: whenever it is ready
for another attempt, the other one has just led the pointer round. -/
def outpaced : List Act :=
  [.start "x" ⟨0, .nil⟩ (.operation .backlog) none [.refusal, .refusal, .refusal],
    .start "y" ⟨0, .nil⟩ (.operation .backlog) none [.refusal, .refusal],
    .work 0, .work 0, .work 1, .work 1, .work 0, .work 0, .work 1, .work 1, .work 0, .work 0, .work 0]

/-- The first call asks the first of two nodes only, three times, and reports the cluster
unreachable. It was the other call that the second node refused meanwhile. -/
theorem refused_everywhere_of_outpaced :
    ((pair 0).exec outpaced).targets 0 = [0, 0, 0] ∧
    (∃ job, ((pair 0).exec outpaced).jobs[0]? = some job ∧
      job.call.phase = .ended (.error (.clusterUnreachable 3 2))) ∧
    ∃ before during after, outpaced = before ++ .work 0 :: during ++ .work 0 :: after ∧
      (pair 0).Spans 0 before during ∧
      ∃ x ∈ ((pair 0).exec (before ++ [.work 0])).hearings during, x.target = 1 ∧
        x.outcome.isRefusal = true := by
  have hended : ∃ job, ((pair 0).exec outpaced).jobs[0]? = some job ∧
      job.call.phase = .ended (.error (.clusterUnreachable 3 2)) ∧ job.router = 0 :=
    ⟨_, rfl, rfl, rfl⟩
  obtain ⟨job, hjob, hphase, hrouter⟩ := hended
  obtain ⟨before, during, after, r, hacts, hspans, -, -, hnodes, hall⟩ :=
    refused_everywhere_of_unreachable (.pair (by decide)) (Nat.zero_le 0) hjob hphase rfl
  obtain ⟨x, hx, -, htarget, hrefusal, -⟩ := hall 1 (by omega)
  exact ⟨rfl, ⟨job, hjob, hphase⟩, before, during, after, hacts, hspans, x, hx, htarget, hrefusal⟩

end World

end ClusterClient
