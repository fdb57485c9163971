import ClusterClient.Proofs.Course

/-!
# Calls whose token has fired

The caller may give up at any moment: before the call is started, between two attempts, while an
attempt is sent or is in flight, and even while the outcome of an attempt is being produced. What
the call reports then, and how many attempts it has sent, depends on the moment and on the number of
refusals that it has heard, not on what other calls do.

* **`Call.Verge`**: the next piece of work of a call is its last. `World.OnVerge.act` is the step: a
  call on the verge of its end stays there until it works, and then it has ended.
* **`World.Closing`**: what this comes to for the rest of a schedule (`World.OnVerge.closing`).
* **`World.act_of_hearing`**: what a call does with an outcome. One of which it takes note while its
  token fires still counts.
* **`World.cancellation`**: the account of all moments.
-/

namespace ClusterClient

/-- The next piece of work of a call ends it, and with which result; or it has ended. -/
inductive Call.Verge (size : Nat) (cancelled : Bool) : Phase → Except Fault Reply → Prop where
  | withdrawn {attempt : Nat} (left : attempt ≤ size + 1) (fired : cancelled = true) :
      Call.Verge size cancelled (.poised attempt) (.error (.cancelled (attempt - 1)))
  | exhausted {attempt : Nat} (spent : size + 1 < attempt) :
      Call.Verge size cancelled (.poised attempt) (.error (.clusterUnreachable (size + 1) size))
  | interrupted {attempt place : Nat} {arrived : Option Planned} (fired : cancelled = true) :
      Call.Verge size cancelled (.inFlight attempt place arrived) (.error (.cancelled (attempt - 1)))
  | returned {result : Except Fault Reply} : Call.Verge size cancelled (.ended result) result

namespace Call

variable {size : Nat} {cancelled cancelled' : Bool} {phase : Phase} {result : Except Fault Reply}

/-- A call on the verge stays there if it is cancelled as well. -/
theorem Verge.mono (h : Verge size cancelled phase result)
    (hc : cancelled = true → cancelled' = true) : Verge size cancelled' phase result := by
  cases h with
  | withdrawn left fired => exact .withdrawn left (hc fired)
  | exhausted spent => exact .exhausted spent
  | interrupted fired => exact .interrupted (hc fired)
  | returned => exact .returned

/-- A call on the verge hears nothing more. -/
theorem Verge.unheard {c : Call} (h : Verge size cancelled c.phase result) (r : Router) :
    c.heard? r cancelled = none := by
  generalize hphase : c.phase = phase at h
  cases h with
  | withdrawn | exhausted => exact heard?_of_poised r hphase cancelled
  | interrupted fired =>
    subst fired
    exact heard?_of_cancelled r c
  | returned => simp [heard?, hphase]

/-- **The last piece of work** ends the call and sends nothing. -/
theorem Verge.of_piece {c : Call} {r : Router} {m : Move}
    (h : Verge r.roster.size cancelled c.phase result) (piece : Piece c r cancelled m) :
    m.call.phase = .ended result ∧ m.sendings = [] := by
  -- of the six pieces of work only those remain that a call on the verge can do
  cases piece with
  | exhausted phase spent =>
    have hspent : r.roster.size + 1 < _ := spent
    rw [phase] at h
    cases h with
    | withdrawn left => omega
    | exhausted => exact ⟨rfl, rfl⟩
  | withdrawn phase left =>
    have hleft : _ ≤ r.roster.size + 1 := left
    rw [phase] at h
    cases h with
    | withdrawn => exact ⟨rfl, rfl⟩
    | exhausted spent => omega
  | sent phase left unfired =>
    have hleft : _ ≤ r.roster.size + 1 := left
    rw [phase] at h
    cases h with
    | withdrawn _ fired => exact absurd fired (by simp [unfired])
    | exhausted spent => omega
  | interrupted phase =>
    rw [phase] at h
    cases h with
    | interrupted => exact ⟨rfl, rfl⟩
  | refused phase unfired | concluded phase unfired =>
    rw [phase] at h
    cases h with
    | interrupted fired => exact absurd fired (by simp [unfired])

/-- It has ended, or there is a move left. -/
theorem Verge.moves {c : Call} (h : Verge size cancelled c.phase result) (r : Router) :
    c.phase = .ended result ∨ ∃ m, c.move r cancelled = some m := by
  generalize hphase : c.phase = phase at h
  cases h with
  | withdrawn | exhausted =>
    exact .inr (Option.isSome_iff_exists.mp (move_isSome_of_poised hphase r cancelled))
  | interrupted fired =>
    subst fired
    exact .inr ⟨_, move_of_cancelled hphase r⟩
  | returned => exact .inl rfl

end Call

namespace World

/-- A call of a world is on the verge of its end. -/
def OnVerge (w : World) (q : Nat) (result : Except Fault Reply) : Prop :=
  ∃ job r, w.jobs[q]? = some job ∧ w.router? job.router = some r ∧
    Call.Verge r.roster.size (w.isCancelled job.call) job.call.phase result

variable {w : World} {q : Nat} {result : Except Fault Reply}

/-- **The step.** Whatever is done, a call on the verge stays there. It sends nothing and takes note
of nothing any more. -/
theorem OnVerge.act (h : w.OnVerge q result) (a : Act) :
    (w.act a).OnVerge q result ∧ (w.act a).sendings q = w.sendings q ∧
      ∀ x, w.hearing? a = some x → x.caller ≠ q := by
  obtain ⟨job, r, hjob, hr, hverge⟩ := h
  obtain ⟨job', hjob', hsame⟩ := continues_act hjob a
  obtain ⟨r', hr', hroster⟩ := router?_act_roster hr a
  rw [← hsame.router] at hr'
  rw [← hroster] at hverge
  cases was_of_act hjob' with
  | started act_eq router new =>
    have hlt : q < w.jobs.length := job_lt hjob
    omega
  | kept before unsent unheard =>
    -- the token cannot be taken back
    obtain rfl := Option.some.inj (hjob.symm.trans before)
    have hmono := hverge.mono fun hc => isCancelled_act rfl hc a
    exact ⟨⟨job, r', hjob', hr', hmono⟩, unsent, unheard⟩
  | arrived act_eq before delivered job_eq unsent unheard =>
    -- a response that arrives is kept, but not looked at
    obtain rfl := Option.some.inj (hjob.symm.trans before)
    obtain ⟨attempt, place, hphase, rfl⟩ := Call.deliver?_eq_some delivered
    subst job_eq
    rw [hphase] at hverge
    cases hverge with
    | interrupted fired =>
      exact ⟨⟨_, r', hjob', hr', .interrupted (isCancelled_act rfl fired a)⟩, unsent, unheard⟩
  | worked act_eq before router piece job_eq sent =>
    -- its work is its end
    obtain rfl := Option.some.inj (hjob.symm.trans before)
    obtain rfl := Option.some.inj (hr.symm.trans router)
    subst job_eq
    rw [hroster] at hverge
    obtain ⟨hended, hunsent⟩ := hverge.of_piece piece
    refine ⟨⟨_, r', hjob', hr', ?_⟩, by rw [sent, hunsent, List.append_nil], ?_⟩
    · rw [hended]
      exact .returned
    · intro x hx
      rw [act_eq, hearing?_work hjob hr, hverge.unheard r] at hx
      cases hx

/-- **The end.** When a call on the verge works it has ended. -/
theorem OnVerge.ended (h : w.OnVerge q result) :
    ∃ job, (w.act (.work q)).jobs[q]? = some job ∧ job.call.phase = .ended result := by
  obtain ⟨job, r, hjob, hr, hverge⟩ := h
  rcases hverge.moves r with hended | ⟨m, hm⟩
  · exact ⟨job, (ended_act hjob hended (.work q)).1, hended⟩
  · rw [act_work_eq hjob hr hm]
    exact ⟨_, jobs_after_self hjob m, (hverge.of_piece (Call.piece_of_move hm)).1⟩

/-- **The run.** -/
theorem OnVerge.exec (h : w.OnVerge q result) (acts : List Act) :
    (w.exec acts).OnVerge q result ∧ (w.exec acts).sendings q = w.sendings q ∧
      w.heardBy q acts = [] := by
  induction acts using List.reverseRecOn with
  | nil => exact ⟨h, rfl, rfl⟩
  | append_singleton acts a ih =>
    obtain ⟨hverge, hunsent, hunheard⟩ := ih
    obtain ⟨hverge', hunsent', hunheard'⟩ := hverge.act a
    rw [exec_concat, heardBy_concat_of_none hunheard']
    exact ⟨hverge', hunsent'.trans hunsent, hunheard⟩

/-- A call has nothing left to do but to end with a result. -/
structure Closing (w : World) (q : Nat) (result : Except Fault Reply) : Prop where
  /-- It ends as soon as it works, whether or not a response has arrived. -/
  ended : ∀ acts, Act.work q ∈ acts →
    ∃ job, (w.exec acts).jobs[q]? = some job ∧ job.call.phase = .ended result
  unsent : ∀ acts, (w.exec acts).sendings q = w.sendings q
  /-- Outcomes that come now are discarded. -/
  unheard : ∀ acts, w.heardBy q acts = []
  /-- Its work moves no pointer. -/
  still : ∀ acts n r, (w.exec acts).router? n = some r →
    ((w.exec acts).act (.work q)).router? n = some r

/-- Such a call is closing: its result is settled, and it sends nothing. -/
theorem OnVerge.closing (h : w.OnVerge q result) : w.Closing q result where
  ended acts hmem := by
    obtain ⟨before, after, rfl⟩ := List.append_of_mem hmem
    obtain ⟨job, hjob, hended⟩ := (h.exec before).1.ended
    refine ⟨job, ?_, hended⟩
    rw [exec_append, exec_cons]
    exact (ended_exec hjob hended after).1
  unsent acts := (h.exec acts).2.1
  unheard acts := (h.exec acts).2.2
  still acts n r hr := by
    refine router?_act_of_quiet hr ?_
    intro x hx _
    obtain ⟨hwork, -⟩ := hearing?_eq_some hx
    have hcaller : q = x.caller := by simpa using hwork
    exact absurd hcaller.symm (((h.exec acts).1.act _).2.2 x hx)

/-! ## The moments -/

theorem isCancelled_of_token {c : Call} {token : String} (ht : c.token = some token) :
    w.isCancelled c = true ↔ token ∈ w.fired := by
  simp [isCancelled, ht]

/-- **What a call does with an outcome.** It notes the outcome, and sends nothing: a refusal moves
the router on from the attempt's place, if it is still there, and makes the call ready for the next
attempt; any other outcome ends the call. -/
theorem act_of_hearing {a : Act} {x : Hearing} (hx : w.hearing? a = some x) :
    ∃ job job' r, w.jobs[x.caller]? = some job ∧ (w.act a).jobs[x.caller]? = some job' ∧
      job.router = x.router ∧ job'.router = x.router ∧ w.router? x.router = some r ∧
      (w.act a).router? x.router = some (r.hear x) ∧
      (w.act a).sendings x.caller = w.sendings x.caller ∧
      (∃ p, job.call.phase = .inFlight x.attempt x.target (some p)) ∧
      job'.call.phase = if x.outcome.isRefusal then .poised (x.attempt + 1)
        else .ended (x.outcome.mapError Fault.transport) := by
  obtain ⟨rfl, job, r, p, hjob, hn, hr, hphase, hunfired, hout⟩ := hearing?_eq_some hx
  have hrouter := router?_act hr (.work x.caller)
  rw [hx] at hrouter
  simp only [if_true] at hrouter
  rw [← hn] at hr
  have hm := Call.move_of_arrived hphase r
  rw [← hunfired] at hm
  have hact := act_work_eq hjob hr hm
  have hjob' : (w.act (.work x.caller)).jobs[x.caller]? =
      some { job with call := (job.call.receive r x.attempt x.target p).call } := by
    rw [hact]
    exact jobs_after_self hjob _
  -- noting an outcome sends nothing
  have hsent := sendings_after w x.caller x.caller job (job.call.receive r x.attempt x.target p)
  rw [← hact, if_pos rfl, Call.receive_sendings, List.append_nil] at hsent
  refine ⟨job, _, r, hjob, hjob', hn, hn, hn ▸ hr, hrouter, hsent, ⟨p, hphase⟩, ?_⟩
  rw [Call.receive_call, ← hout]

theorem firedBy_false (w : World) (c : Call) : w.firedBy c false = w.fired := by
  unfold firedBy
  split <;> rfl

/-- A call that ends without taking note of an outcome fires no token. -/
theorem fired_of_ends {a : Act} {job : Job} (hjob : (w.act a).jobs[q]? = some job)
    (hended : job.call.phase = .ended result)
    (hunheard : ∀ x, w.hearing? a = some x → x.caller ≠ q) :
    w.jobs[q]? = some job ∨ (w.act a).fired = w.fired := by
  by_cases ha : a = .work q
  · subst ha
    rcases act_work_cases w q with ⟨-, hact⟩ | ⟨old, r, m, hold, hr, piece, hact⟩
    · exact .inl (hact ▸ hjob)
    · have hcall : (w.act (.work q)).jobs[q]? = some { old with call := m.call } := by
        rw [hact]
        exact jobs_after_self hold m
      obtain rfl := Option.some.inj (hjob.symm.trans hcall)
      right
      rw [hact]
      show w.firedBy old.call m.fires = w.fired
      cases piece with
      | exhausted | withdrawn | interrupted => exact firedBy_false w old.call
      | sent | refused => cases hended
      | concluded phase unfired =>
        -- this branch takes note of an outcome
        have hheard := hearing?_work hold hr
        rw [unfired, Call.heard?_of_arrived r phase] at hheard
        exact absurd rfl (hunheard _ hheard)
  · -- no other act ends a call
    cases was_of_act hjob with
    | started act_eq router new job_eq =>
      rw [job_eq] at hended
      cases hended
    | kept before => exact .inl before
    | arrived act_eq before delivered job_eq =>
      obtain ⟨attempt, place, -, rfl⟩ := Call.deliver?_eq_some delivered
      rw [job_eq] at hended
      cases hended
    | worked act_eq => exact absurd act_eq ha

section Moments

variable {w₀ : World} {acts : List Act} {a : Act} {job : Job} {r : Router}

/-- **Before an attempt.** -/
theorem closing_of_poised (h₀ : w₀.WellFormed) (hq : w₀.jobs.length ≤ q)
    (hjob : (w₀.exec acts).jobs[q]? = some job) (hr : (w₀.exec acts).router? job.router = some r)
    (hfired : (w₀.exec acts).isCancelled job.call = true) {j : Nat}
    (hphase : job.call.phase = .poised j) :
    (w₀.heardBy q acts).length + 1 = j ∧
      (∀ x ∈ w₀.heardBy q acts, x.outcome.isRefusal = true) ∧
      ((w₀.exec acts).sendings q).length + 1 = j ∧
      (j ≤ r.roster.size + 1 → (w₀.exec acts).Closing q (.error (.cancelled (j - 1)))) ∧
      (r.roster.size + 1 < j → (w₀.exec acts).Closing q
        (.error (.clusterUnreachable (r.roster.size + 1) r.roster.size))) := by
  obtain ⟨r', hr', hcourse⟩ := course_exec h₀ hq acts hjob
  obtain rfl := Option.some.inj (hr.symm.trans hr')
  have hverge : ∀ result, Call.Verge r.roster.size true (.poised j) result →
      (w₀.exec acts).Closing q result := by
    intro result h
    rw [← hfired, ← hphase] at h
    exact OnVerge.closing ⟨job, r, hjob, hr, h⟩
  rw [hphase] at hcourse
  obtain ⟨hheard, hsent, hrefused⟩ := hcourse.of_poised
  rw [length_targets] at hsent
  exact ⟨hheard, hrefused, hsent, fun h => hverge _ (.withdrawn h rfl),
    fun h => hverge _ (.exhausted h)⟩

/-- **While an attempt is in flight.** -/
theorem closing_of_inFlight (h₀ : w₀.WellFormed) (hq : w₀.jobs.length ≤ q)
    (hjob : (w₀.exec acts).jobs[q]? = some job)
    (hfired : (w₀.exec acts).isCancelled job.call = true) {j place : Nat}
    {arrived : Option Planned} (hphase : job.call.phase = .inFlight j place arrived) :
    (w₀.heardBy q acts).length + 1 = j ∧
      (∀ x ∈ w₀.heardBy q acts, x.outcome.isRefusal = true) ∧
      ((w₀.exec acts).sendings q).length = j ∧
      (w₀.exec acts).Closing q (.error (.cancelled (j - 1))) := by
  obtain ⟨r, hr, hcourse⟩ := course_exec h₀ hq acts hjob
  have hclosing : (w₀.exec acts).Closing q (.error (.cancelled (j - 1))) := by
    refine OnVerge.closing ⟨job, r, hjob, hr, ?_⟩
    rw [hphase]
    exact .interrupted hfired
  rw [hphase] at hcourse
  obtain ⟨hheard, hsent, hrefused⟩ := hcourse.of_inFlight
  rw [length_targets] at hsent
  exact ⟨hheard, hrefused, hsent, hclosing⟩

/-- **While an outcome is produced.** -/
theorem heard_of_hearing (h₀ : w₀.WellFormed) {x : Hearing} (hq : w₀.jobs.length ≤ x.caller)
    (hx : (w₀.exec acts).hearing? a = some x) :
    (w₀.heardBy x.caller (acts ++ [a])).length = x.attempt ∧
      ((w₀.exec (acts ++ [a])).sendings x.caller).length = x.attempt := by
  obtain ⟨job, job', r, hjob, -, -, -, -, -, hunsent, ⟨p, hphase⟩, -⟩ := act_of_hearing hx
  obtain ⟨r', -, hcourse⟩ := course_exec h₀ hq acts hjob
  have hheard : w₀.heardBy x.caller (acts ++ [a]) = w₀.heardBy x.caller acts ++ [x] := by
    rw [heardBy, hearings_concat, hx, List.filter_append, ← heardBy]
    simp
  rw [hphase] at hcourse
  obtain ⟨hrefused, hsent, -⟩ := hcourse.of_inFlight
  rw [length_targets] at hsent
  constructor
  · rw [hheard, List.length_append]
    exact hrefused
  · rw [exec_concat, hunsent]
    exact hsent

end Moments

/-- **What the caller gets who gives up**, by the moment. Let the token of a call fire in the last
act of a schedule, or be fired already when that act starts the call. From then on:

* a call that is ready for attempt `j` has sent `j - 1` attempts and heard as many refusals. It does
  no more than report that it was cancelled after `j - 1` attempts, or, if its budget is spent, that
  the cluster is unreachable;
* a call that has attempt `j` in flight, which that act may have sent, has sent `j` attempts and
  heard `j - 1` refusals. It does no more than report that it was cancelled after `j - 1` attempts.
  Whether the response is there or arrives later, it is discarded;
* a call that takes note of the outcome of attempt `j` in that act has sent `j` attempts. A final
  outcome is its result. A refusal moves the router on from the place of the attempt, if it is still
  there, and then the call does no more than report that it was cancelled after `j` attempts, or, if
  `j` was its last, that the cluster is unreachable;
* in every other case the call had ended before. -/
theorem cancellation {w₀ : World} (h₀ : w₀.WellFormed) (hq : w₀.jobs.length ≤ q) (acts : List Act)
    (a : Act) {job : Job} {token : String}
    (hjob : (w₀.exec (acts ++ [a])).jobs[q]? = some job) (htoken : job.call.token = some token)
    (hfired : token ∈ (w₀.exec (acts ++ [a])).fired) :
    let w := w₀.exec acts
    let w' := w₀.exec (acts ++ [a])
    let heard := w₀.heardBy q (acts ++ [a])
    ∃ r, w'.router? job.router = some r ∧
      (∀ j, job.call.phase = .poised j →
        heard.length + 1 = j ∧ (∀ x ∈ heard, x.outcome.isRefusal = true) ∧
        (w'.sendings q).length + 1 = j ∧
        (j ≤ r.roster.size + 1 → w'.Closing q (.error (.cancelled (j - 1)))) ∧
        (r.roster.size + 1 < j → w'.Closing q
          (.error (.clusterUnreachable (r.roster.size + 1) r.roster.size)))) ∧
      (∀ j place arrived, job.call.phase = .inFlight j place arrived →
        heard.length + 1 = j ∧ (∀ x ∈ heard, x.outcome.isRefusal = true) ∧
        (w'.sendings q).length = j ∧ w'.Closing q (.error (.cancelled (j - 1)))) ∧
      (∀ x, w.hearing? a = some x → x.caller = q →
        heard.length = x.attempt ∧ (w'.sendings q).length = x.attempt ∧
        ∃ r₀, w.router? job.router = some r₀ ∧
          (x.outcome.isRefusal = false → r = r₀ ∧
            job.call.phase = .ended (x.outcome.mapError Fault.transport) ∧
            w'.Closing q (x.outcome.mapError Fault.transport)) ∧
          (x.outcome.isRefusal = true → r = r₀.leave x.target ∧
            (x.attempt ≤ r.roster.size → w'.Closing q (.error (.cancelled x.attempt))) ∧
            (x.attempt = r.roster.size + 1 → w'.Closing q
              (.error (.clusterUnreachable (r.roster.size + 1) r.roster.size))))) ∧
      (token ∉ w.fired → (∀ x, w.hearing? a = some x → x.caller ≠ q) →
        ∀ result, job.call.phase = .ended result → w.jobs[q]? = some job) := by
  intro w w' heard
  have hjob' : w'.jobs[q]? = some job := hjob
  obtain ⟨r, hr', -⟩ := (h₀.exec (acts ++ [a])).fits q job hjob
  have hr := hr'
  have hcancelled : w'.isCancelled job.call = true := (isCancelled_of_token htoken).mpr hfired
  have hpoised := fun j (hphase : job.call.phase = .poised j) =>
    closing_of_poised h₀ hq hjob hr' hcancelled hphase
  rw [exec_concat] at hjob hr hfired
  refine ⟨r, hr', hpoised, fun _ _ _ => closing_of_inFlight h₀ hq hjob' hcancelled, ?_, ?_⟩
  · -- the call hears an outcome in the act itself
    rintro x hx rfl
    obtain ⟨hheard, hsent⟩ := heard_of_hearing h₀ hq hx
    obtain ⟨old, new, r₀, -, hnew, -, hn, hr₀, hafter, -, -, hphase⟩ := act_of_hearing hx
    obtain rfl := Option.some.inj (hjob.symm.trans hnew)
    rw [← hn] at hr₀ hafter
    obtain rfl := Option.some.inj (hr.symm.trans hafter)
    refine ⟨hheard, hsent, r₀, hr₀, ?_, ?_⟩
    · intro hfinal
      rw [hfinal] at hphase
      refine ⟨Router.hear_of_final hfinal, hphase, OnVerge.closing ⟨job, _, hjob', hr', ?_⟩⟩
      rw [if_neg Bool.false_ne_true] at hphase
      rw [hphase]
      exact .returned
    · intro hrefusal
      rw [hrefusal] at hphase
      obtain ⟨-, -, -, hleft, hspent⟩ := hpoised _ hphase
      refine ⟨by rw [Router.hear, if_pos hrefusal], ?_, ?_⟩
      · intro hle
        exact hleft (Nat.succ_le_succ hle)
      · intro hlast
        exact hspent (by omega)
  · -- an act that hears nothing for this call fires no token if it ends the call
    intro hbefore hunheard result hended
    rcases fired_of_ends hjob hended hunheard with hsame | hfires
    · exact hsame
    · rw [hfires] at hfired
      exact absurd hfired hbefore

/-- A call that is refused once, and whose token fires by itself at a moment of its first
attempt. -/
def revocable (trigger : Option Trigger) : Act :=
  .start "x" ⟨0, .nil⟩ (.operation .backlog) (some "t") [⟨Planned.refusal.response, trigger⟩]

/-- The token fires before the attempt, while it is sent, and while its refusal is produced: no
attempt and none refused, one attempt and none refused, one attempt and one refused. Only in the
last case does the pointer move. -/
theorem cancellation_of_revocable :
    let before := (pair 0).exec ([revocable none] ++ [.fire "t"])
    let during := (pair 0).exec ([revocable (some .onSend)] ++ [.work 0])
    let late := (pair 0).exec ([revocable (some .onReply), .work 0] ++ [.work 0])
    (before.sendings 0).length = 0 ∧ before.Closing 0 (.error (.cancelled 0)) ∧
      (during.sendings 0).length = 1 ∧ during.Closing 0 (.error (.cancelled 0)) ∧
      during.router? 0 = some ⟨.pair, 0⟩ ∧
      (late.sendings 0).length = 1 ∧ late.Closing 0 (.error (.cancelled 1)) ∧
      late.router? 0 = some ⟨.pair, 1⟩ := by
  intro before during late
  have hwf : (pair 0).WellFormed := .pair (by decide)
  obtain ⟨r₁, hr₁, hpoised, -⟩ := cancellation hwf (Nat.zero_le 0) [revocable none] (.fire "t")
    rfl rfl (List.mem_singleton_self "t")
  obtain ⟨-, -, hinFlight, -⟩ := (cancellation hwf (Nat.zero_le 0) [revocable (some .onSend)]
    (.work 0) rfl rfl (List.mem_singleton_self "t")).choose_spec
  obtain ⟨r₃, hr₃, -, -, hhearing, -⟩ := cancellation hwf (Nat.zero_le 0)
    [revocable (some .onReply), .work 0] (.work 0) rfl rfl (List.mem_singleton_self "t")
  obtain rfl : (⟨.pair, 0⟩ : Router) = r₁ := Option.some.inj hr₁
  obtain rfl : (⟨.pair, 1⟩ : Router) = r₃ := Option.some.inj hr₃
  obtain ⟨-, -, hunsent, hleft, -⟩ := hpoised 1 rfl
  obtain ⟨-, -, hsent, hclosing⟩ := hinFlight 1 0 _ rfl
  obtain ⟨-, hsent', r₂, -, -, hrefusal⟩ := hhearing _ rfl rfl
  obtain ⟨-, hcancelled, -⟩ := hrefusal rfl
  exact ⟨Nat.succ.inj hunsent, hleft (by decide), hsent, hclosing, rfl, hsent',
    hcancelled (by decide), rfl⟩

end World

end ClusterClient
