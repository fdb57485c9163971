import ClusterClient.Proofs.WellFormed

/-!
# The course of a call

How far a call has come is determined by what it has heard. `Course` says so phase by phase: the
number of the attempt is one more than the number of refusals heard, a call that has ended gives
back its last outcome or the exhaustion of its budget, and every outcome that was heard belongs to
an attempt that was sent. What other calls do meanwhile does not enter.

* **`Course.of_piece`**: the step. One piece of work keeps a call on its course.
* **`World.course_exec`**: the run. A call that was started in a schedule is on its course at the
  end of it, whatever else the schedule does.
* **`World.sendings_exec`**: the endpoints and the requests of its attempts.
-/

namespace ClusterClient

/-- The course of a call on a roster of `size` nodes: what it has heard and where it has sent its
attempts, by its phase. -/
inductive Course (size : Nat) (cancelled : Bool) (heard : List Hearing) (targets : List Nat) :
    Phase → Prop where
  | poised (refused : ∀ h ∈ heard, h.outcome.isRefusal = true)
      (asked : targets = heard.map Hearing.target) (within : heard.length ≤ size + 1) :
      Course size cancelled heard targets (.poised (heard.length + 1))
  | inFlight {target : Nat} {arrived : Option Planned}
      (refused : ∀ h ∈ heard, h.outcome.isRefusal = true)
      (asked : targets = heard.map Hearing.target ++ [target]) (within : heard.length ≤ size) :
      Course size cancelled heard targets (.inFlight (heard.length + 1) target arrived)
  | exhausted (refused : ∀ h ∈ heard, h.outcome.isRefusal = true)
      (asked : targets = heard.map Hearing.target) (spent : heard.length = size + 1) :
      Course size cancelled heard targets (.ended (.error (.clusterUnreachable (size + 1) size)))
  | concluded {before : List Hearing} {last : Hearing} (heard_eq : heard = before ++ [last])
      (refused : ∀ h ∈ before, h.outcome.isRefusal = true)
      (final : last.outcome.isRefusal = false)
      (asked : targets = heard.map Hearing.target) (within : before.length ≤ size) :
      Course size cancelled heard targets (.ended (last.outcome.mapError Fault.transport))
  | withdrawn (fired : cancelled = true) (refused : ∀ h ∈ heard, h.outcome.isRefusal = true)
      (asked : targets = heard.map Hearing.target) (within : heard.length ≤ size) :
      Course size cancelled heard targets (.ended (.error (.cancelled heard.length)))
  | interrupted {target : Nat} (fired : cancelled = true)
      (refused : ∀ h ∈ heard, h.outcome.isRefusal = true)
      (asked : targets = heard.map Hearing.target ++ [target]) (within : heard.length ≤ size) :
      Course size cancelled heard targets (.ended (.error (.cancelled heard.length)))

namespace Course

variable {size : Nat} {cancelled cancelled' : Bool} {heard : List Hearing} {targets : List Nat}
  {phase : Phase}

/-- A cancelled call may have been cut off, so what holds without cancellation holds with it. -/
theorem mono (h : Course size cancelled heard targets phase)
    (hc : cancelled = true → cancelled' = true) : Course size cancelled' heard targets phase := by
  cases h with
  | poised refused asked within => exact .poised refused asked within
  | inFlight refused asked within => exact .inFlight refused asked within
  | exhausted refused asked spent => exact .exhausted refused asked spent
  | concluded heard_eq refused final asked within =>
    exact .concluded heard_eq refused final asked within
  | withdrawn fired refused asked within => exact .withdrawn (hc fired) refused asked within
  | interrupted fired refused asked within => exact .interrupted (hc fired) refused asked within

/-- An outcome that arrives changes nothing before it is handled. -/
theorem arrive {attempt target : Nat} {arrived arrived' : Option Planned}
    (h : Course size cancelled heard targets (.inFlight attempt target arrived)) :
    Course size cancelled heard targets (.inFlight attempt target arrived') := by
  cases h with
  | inFlight refused asked within => exact .inFlight refused asked within

/-! How many attempts have been sent and how many refusals heard, by the number of the attempt. -/

/-- Before its next attempt a call has heard of all its attempts, and each was refused. -/
theorem of_poised {j : Nat} (h : Course size cancelled heard targets (.poised j)) :
    heard.length + 1 = j ∧ targets.length + 1 = j ∧ ∀ x ∈ heard, x.outcome.isRefusal = true := by
  cases h with
  | poised refused asked within =>
    have hlength : targets.length = heard.length := by rw [asked, List.length_map]
    exact ⟨rfl, by rw [hlength], refused⟩

/-- While an attempt is in flight, all earlier ones were refused. -/
theorem of_inFlight {j place : Nat} {arrived : Option Planned}
    (h : Course size cancelled heard targets (.inFlight j place arrived)) :
    heard.length + 1 = j ∧ targets.length = j ∧ ∀ x ∈ heard, x.outcome.isRefusal = true := by
  cases h with
  | inFlight refused asked within =>
    have hlength : targets.length = heard.length + 1 := by
      rw [asked, List.length_append, List.length_map, List.length_singleton]
    exact ⟨rfl, hlength, refused⟩

/-- **A piece of work keeps a call on its course.** -/
theorem of_piece {c : Call} {r : Router} {m : Move} {q n : Nat}
    (h : Course r.roster.size cancelled heard targets c.phase)
    (piece : Call.Piece c r cancelled m) :
    Course r.roster.size cancelled
      (heard ++ ((c.heard? r cancelled).map fun x => ⟨q, n, x.1, x.2.1, x.2.2⟩).toList)
      (targets ++ m.sendings.map Sending.place) m.call.phase := by
  cases piece with
  | exhausted phase spent =>
    rw [phase] at h
    rw [Call.heard?_of_poised r phase]
    cases h with
    | poised refused asked within =>
      have spent : r.roster.size + 1 < heard.length + 1 := spent
      have hend : Course r.roster.size cancelled heard targets
          (.ended (.error (.clusterUnreachable (r.roster.size + 1) r.roster.size))) :=
        .exhausted refused asked (by omega)
      simpa [Roster.budget] using hend
  | withdrawn phase left fired =>
    rw [phase] at h
    rw [Call.heard?_of_poised r phase]
    cases h with
    | poised refused asked within =>
      have left : heard.length + 1 ≤ r.roster.size + 1 := left
      simpa using Course.withdrawn fired refused asked (Nat.le_of_succ_le_succ left)
  | sent phase left unfired =>
    rw [phase] at h
    rw [Call.heard?_of_poised r phase]
    cases h with
    | poised refused asked within =>
      have left : heard.length + 1 ≤ r.roster.size + 1 := left
      simpa using Course.inFlight refused (congrArg (· ++ [r.lead]) asked)
        (Nat.le_of_succ_le_succ left)
  | interrupted phase fired =>
    rw [phase] at h
    subst fired
    rw [Call.heard?_of_cancelled]
    cases h with
    | inFlight refused asked within => simpa using Course.interrupted rfl refused asked within
  | @refused attempt target p phase unfired refusal =>
    rw [phase] at h
    subst unfired
    rw [Call.heard?_of_arrived r phase]
    cases h with
    | inFlight refused asked within =>
      let last : Hearing := ⟨q, n, heard.length + 1, target, Call.outcomeAt r target p⟩
      -- the outcome that has arrived is one refusal more
      have hall : ∀ x ∈ heard ++ [last], x.outcome.isRefusal = true := by
        intro x hx
        rcases List.mem_append.mp hx with hx | hx
        · exact refused x hx
        · rw [List.mem_singleton.mp hx]
          exact refusal
      have hnext : Course r.roster.size false (heard ++ [last]) targets
          (.poised ((heard ++ [last]).length + 1)) :=
        .poised hall (by simp [asked, last]) (by simpa using within)
      simpa [Move.sendings, Call.refusal_sendings, last] using hnext
  | @concluded attempt target p phase unfired final =>
    rw [phase] at h
    subst unfired
    rw [Call.heard?_of_arrived r phase]
    cases h with
    | inFlight refused asked within =>
      let last : Hearing := ⟨q, n, heard.length + 1, target, Call.outcomeAt r target p⟩
      have hend : Course r.roster.size false (heard ++ [last]) targets
          (.ended (last.outcome.mapError Fault.transport)) :=
        -- all outcomes before the final one were refused
        .concluded rfl refused final (by simp [asked, last]) within
      simpa [last] using hend

end Course

namespace World

/-- A call that has not begun has heard nothing. -/
theorem heardBy_eq_nil {w : World} {acts : List Act} {q : Nat}
    (hq : (w.exec acts).jobs.length ≤ q) : w.heardBy q acts = [] := by
  induction acts using List.reverseRecOn with
  | nil => rfl
  | append_singleton acts a ih =>
    rw [exec_concat] at hq
    have hle := jobs_length_le_act (w.exec acts) a
    rw [heardBy_concat_of_none, ih (by omega)]
    intro h hh
    obtain ⟨-, job, -, -, hjob, -⟩ := hearing?_eq_some hh
    have := job_lt hjob
    omega

/-- **The course of a call in a schedule.** A call that was started in a schedule is on its course
at the end of it. -/
theorem course_exec {w : World} (hw : w.WellFormed) {q : Nat} (hq : w.jobs.length ≤ q)
    (acts : List Act) {job : Job} (hjob : (w.exec acts).jobs[q]? = some job) :
    ∃ r, (w.exec acts).router? job.router = some r ∧
      Course r.roster.size ((w.exec acts).isCancelled job.call) (w.heardBy q acts)
        ((w.exec acts).targets q) job.call.phase := by
  refine call_induction (P := fun acts job => ∃ r, (w.exec acts).router? job.router = some r ∧
    Course r.roster.size ((w.exec acts).isCancelled job.call) (w.heardBy q acts)
      ((w.exec acts).targets q) job.call.phase) hq ?_ acts hjob
  clear hjob
  intro acts a job hwas ih
  rw [exec_concat]
  have hwf := hw.exec acts
  cases hwas with
  | started act_eq router new job_eq unsent unheard =>
    -- a new call has neither sent nor heard anything
    obtain ⟨r, hr, -⟩ := router?_act_roster router a
    subst job_eq
    refine ⟨r, hr, ?_⟩
    rw [targets_of_unsent unsent, hwf.targets_eq_nil (by omega), heardBy_concat_of_none unheard,
      heardBy_eq_nil (by omega)]
    exact .poised (by simp) rfl (by simp)
  | kept before unsent unheard =>
    -- others may cancel it meanwhile, which only adds ways to go on
    obtain ⟨r, hr, hcourse⟩ := ih _ before
    obtain ⟨r', hr', hroster⟩ := router?_act_roster hr a
    refine ⟨r', hr', ?_⟩
    rw [hroster, targets_of_unsent unsent, heardBy_concat_of_none unheard]
    exact hcourse.mono fun hc => isCancelled_act rfl hc a
  | arrived act_eq before delivered job_eq unsent unheard =>
    obtain ⟨r, hr, hcourse⟩ := ih _ before
    obtain ⟨r', hr', hroster⟩ := router?_act_roster hr a
    obtain ⟨attempt, place, hphase, rfl⟩ := Call.deliver?_eq_some delivered
    subst job_eq
    refine ⟨r', hr', ?_⟩
    rw [hphase] at hcourse
    rw [hroster, targets_of_unsent unsent, heardBy_concat_of_none unheard]
    exact hcourse.arrive.mono fun hc => isCancelled_act rfl hc a
  | worked act_eq before router piece job_eq sent =>
    -- its own work is the step of the course
    obtain ⟨r, hr, hcourse⟩ := ih _ before
    obtain rfl : r = _ := Option.some.inj (hr.symm.trans router)
    obtain ⟨r', hr', hroster⟩ := router?_act_roster hr a
    subst job_eq act_eq
    refine ⟨r', hr', ?_⟩
    rw [hroster, targets_of_sendings sent, heardBy_concat_work before router]
    exact (hcourse.of_piece piece).mono fun hc => isCancelled_act piece.same.2 hc _

/-- **What is sent.** Each attempt of a call goes to the endpoint at its place, with the request of
the call. -/
theorem sendings_exec {w : World} (hw : w.WellFormed) {q : Nat} (hq : w.jobs.length ≤ q)
    (acts : List Act) {job : Job} {r : Router} (hjob : (w.exec acts).jobs[q]? = some job)
    (hr : (w.exec acts).router? job.router = some r) :
    (w.exec acts).sendings q = ((w.exec acts).targets q).map fun target =>
      ⟨target, r.roster.endpoint target, job.call.request⟩ := by
  refine call_induction (P := fun acts job => ∀ r, (w.exec acts).router? job.router = some r →
    (w.exec acts).sendings q = ((w.exec acts).targets q).map fun target =>
      ⟨target, r.roster.endpoint target, job.call.request⟩) hq ?_ acts hjob r hr
  clear hjob hr
  intro acts a job hwas ih r hr
  rw [exec_concat] at hr ⊢
  have hwf := hw.exec acts
  -- the call and its router before the act, if the call is not new
  have hold : ∀ old : Job, (w.exec acts).jobs[q]? = some old → old.router = job.router →
      old.call.request = job.call.request →
      (w.exec acts).sendings q = ((w.exec acts).targets q).map fun target =>
        ⟨target, r.roster.endpoint target, job.call.request⟩ := by
    intro old hold hrouter hrequest
    obtain ⟨r₀, hr₀, hroster⟩ := hwf.router_before hold (hrouter ▸ hr)
    rw [hroster, ← hrequest]
    exact ih old hold r₀ hr₀
  cases hwas with
  | started act_eq router new job_eq unsent =>
    rw [unsent, targets_of_unsent unsent, hwf.sendings_eq_nil (by omega),
      hwf.targets_eq_nil (by omega)]
    rfl
  | kept before unsent =>
    rw [unsent, targets_of_unsent unsent]
    exact hold job before rfl rfl
  | arrived act_eq before delivered job_eq unsent =>
    obtain ⟨attempt, place, -, rfl⟩ := Call.deliver?_eq_some delivered
    rw [unsent, targets_of_unsent unsent]
    exact hold _ before (by rw [job_eq]) (by rw [job_eq])
  | @worked old r' m act_eq before router piece job_eq sent =>
    have hbefore := hold old before (by rw [job_eq]) (by rw [job_eq]; exact piece.same.1.symm)
    obtain ⟨r'', hr'', hroster⟩ := router?_act_roster router a
    rw [show old.router = job.router by rw [job_eq], hr] at hr''
    obtain rfl := Option.some.inj hr''
    rw [targets_of_sendings sent, sent, hbefore, List.map_append]
    congr 1
    cases piece with
    | exhausted | withdrawn | interrupted | concluded => rfl
    | sent phase =>
      rw [job_eq, hroster]
      rfl
    | refused => simp [Move.sendings, Call.refusal_sendings]

end World

end ClusterClient
