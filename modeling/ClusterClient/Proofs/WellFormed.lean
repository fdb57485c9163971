import ClusterClient.Proofs.Frame

/-!
# Well-formed worlds

What holds of a world without calls and is preserved by every act: pointers are valid places, calls
know their router and keep to its budget, and reports are about known calls. Statements about runs
start from a well-formed world, which may be any idle one (`WellFormed.of_idle`) or any that such a
one has become (`WellFormed.exec`).
-/

namespace ClusterClient

/-- A call keeps to the budget and to the places of a roster. -/
def Call.Fits (c : Call) (roster : Roster) : Prop :=
  match c.phase with
  | .poised attempt => 1 ≤ attempt ∧ attempt ≤ roster.budget + 1
  | .inFlight attempt place _ => 1 ≤ attempt ∧ attempt ≤ roster.budget ∧ place < roster.size
  | .ended _ => True

/-- Every move leaves a call that fits its roster. -/
theorem Call.Piece.fits {c : Call} {r : Router} {cancelled : Bool} {m : Move}
    (h : Call.Piece c r cancelled m) (hc : c.Fits r.roster) (hr : r.lead < r.roster.size) :
    m.call.Fits r.roster := by
  unfold Call.Fits at hc
  cases h with
  | exhausted | withdrawn | interrupted | concluded => trivial
  | sent phase left =>
    simp only [phase] at hc
    exact ⟨hc.1, left, hr⟩
  | refused phase =>
    simp only [phase] at hc
    exact ⟨by omega, by omega⟩

/-- **What every act preserves.** -/
structure World.WellFormed (w : World) : Prop where
  /-- The leader's place is a place of the roster; so there is one. -/
  lead_lt : ∀ n r, w.router? n = some r → r.lead < r.roster.size
  /-- A call knows its router and keeps to its budget. -/
  fits : ∀ (q : Nat) (job : Job), w.jobs[q]? = some job →
    ∃ r, w.router? job.router = some r ∧ job.call.Fits r.roster
  /-- Reports are about known calls. -/
  reported : ∀ report ∈ w.history, report.place < w.jobs.length

namespace World

/-- The next place is on the ring. -/
theorem next_lt {r : Router} (h : r.lead < r.roster.size) (place : Nat) :
    r.roster.next place < r.roster.size :=
  Nat.mod_lt _ (by omega)

/-- Whatever a router hears, its pointer stays on the ring. -/
theorem hear_lead_lt {r : Router} (hr : r.lead < r.roster.size) (h : Hearing) :
    (r.hear h).lead < r.roster.size := by
  unfold Router.hear
  split
  · rw [Router.leave_lead_eq]
    split
    · exact next_lt hr _
    · exact hr
  · exact hr

/-- After any act all pointers are on their rings. -/
theorem WellFormed.lead_lt_act {w : World} (h : w.WellFormed) (a : Act) {n : Nat} {r : Router}
    (hr : (w.act a).router? n = some r) : r.lead < r.roster.size := by
  cases hn : w.router? n with
  | none =>
    obtain ⟨hlead, n', r', hr', hroster⟩ := router?_act_of_none hn hr
    have := h.lead_lt n' r' hr'
    rw [hlead, hroster]
    omega
  | some r' =>
    have hlt := h.lead_lt n r' hn
    rw [router?_act hn] at hr
    obtain rfl := Option.some.inj hr
    split
    · split
      · rw [Router.hear_roster]
        exact hear_lead_lt hlt _
      · exact hlt
    · exact hlt

/-- After any act every call has a router and fits its roster. -/
theorem WellFormed.fits_act {w : World} (h : w.WellFormed) (a : Act) {q : Nat} {job : Job}
    (hjob : (w.act a).jobs[q]? = some job) :
    ∃ r, (w.act a).router? job.router = some r ∧ job.call.Fits r.roster := by
  -- the router of the call is known before the act, and its roster does not change
  have key : ∀ r, w.router? job.router = some r → job.call.Fits r.roster →
      ∃ r, (w.act a).router? job.router = some r ∧ job.call.Fits r.roster := by
    intro r hr hfits
    obtain ⟨r', hr', hroster⟩ := router?_act_roster hr a
    exact ⟨r', hr', by rw [hroster]; exact hfits⟩
  cases was_of_act hjob with
  | started act_eq router new job_eq =>
    subst job_eq
    exact key _ router ⟨by omega, by omega⟩
  | kept before =>
    obtain ⟨r, hr, hfits⟩ := h.fits q job before
    exact key r hr hfits
  | arrived act_eq before delivered job_eq =>
    subst job_eq
    obtain ⟨r, hr, hfits⟩ := h.fits q _ before
    obtain ⟨attempt, place, hphase, rfl⟩ := Call.deliver?_eq_some delivered
    refine key r hr ?_
    unfold Call.Fits at hfits ⊢
    simpa only [hphase] using hfits
  | worked act_eq before router piece job_eq sent =>
    subst job_eq
    obtain ⟨r, hr, hfits⟩ := h.fits q _ before
    obtain rfl : r = _ := Option.some.inj (hr.symm.trans router)
    exact key r hr (piece.fits hfits (h.lead_lt _ r hr))

/-- The router of a call before an act has the roster that it has afterwards. -/
theorem WellFormed.router_before {w : World} (h : w.WellFormed) {a : Act} {q : Nat} {old : Job}
    (hold : w.jobs[q]? = some old) {r : Router} (hr : (w.act a).router? old.router = some r) :
    ∃ r', w.router? old.router = some r' ∧ r.roster = r'.roster := by
  obtain ⟨r', hr', -⟩ := h.fits q old hold
  obtain ⟨r'', hr'', hroster⟩ := router?_act_roster hr' a
  obtain rfl := Option.some.inj (hr.symm.trans hr'')
  exact ⟨r', hr', hroster⟩

/-- After any act only calls that exist have reported. -/
theorem WellFormed.reported_act {w : World} (h : w.WellFormed) (a : Act) {report : Report}
    (hmem : report ∈ (w.act a).history) : report.place < (w.act a).jobs.length := by
  have hle := jobs_length_le_act w a
  have key : report ∈ w.history → report.place < (w.act a).jobs.length := fun hmem => by
    have := h.reported report hmem
    omega
  rcases a.work_or with ⟨q, rfl⟩ | hne
  · rcases act_work_cases w q with ⟨-, hact⟩ | ⟨job, r, m, hjob, -, -, hact⟩
    · rw [hact] at hmem
      exact key hmem
    · have hq : q < w.jobs.length := job_lt hjob
      rw [hact] at hmem
      rcases List.mem_append.mp hmem with hold | hnew
      · exact key hold
      · obtain ⟨o, -, rfl⟩ := List.mem_map.mp hnew
        simp only
        omega
  · rw [history_act_of_ne_work hne] at hmem
    exact key hmem

/-- **Every act keeps a world well formed.** -/
theorem WellFormed.act {w : World} (h : w.WellFormed) (a : Act) : (w.act a).WellFormed where
  lead_lt _ _ hr := h.lead_lt_act a hr
  fits _ _ hjob := h.fits_act a hjob
  reported _ hmem := h.reported_act a hmem

/-- **Every schedule does**, by induction on its acts. -/
theorem WellFormed.exec {w : World} (h : w.WellFormed) (acts : List Act) :
    (w.exec acts).WellFormed :=
  exec_induction (fun _ a h => h.act a) h acts

/-- A world without calls is well formed if its pointers are on their rings. -/
theorem WellFormed.of_idle {w : World} (hjobs : w.jobs = []) (hhistory : w.history = [])
    (hlead : ∀ r ∈ w.routers, r.lead < r.roster.size) : w.WellFormed where
  lead_lt _ _ hr := hlead _ (List.mem_of_getElem? hr)
  fits q job hjob := by simp [hjobs] at hjob
  reported report hmem := by simp [hhistory] at hmem

/-- Nothing is on record about calls to come, whatever is looked for. -/
theorem WellFormed.filterMap_history_eq_nil {α : Type} (f : Occurrence → Option α) {w : World}
    (h : w.WellFormed) {q : Nat} (hq : w.jobs.length ≤ q) :
    (w.history.filterMap fun report =>
      if report.place = q then f report.occurrence else none) = [] := by
  refine List.filterMap_eq_nil_iff.mpr ?_
  intro report hmem
  have := h.reported report hmem
  rw [if_neg (by omega)]

/-- A call that does not exist has sent nothing. -/
theorem WellFormed.sendings_eq_nil {w : World} (h : w.WellFormed) {q : Nat}
    (hq : w.jobs.length ≤ q) : w.sendings q = [] :=
  h.filterMap_history_eq_nil Occurrence.sending? hq

/-- Nor has it asked anybody. -/
theorem WellFormed.targets_eq_nil {w : World} (h : w.WellFormed) {q : Nat}
    (hq : w.jobs.length ≤ q) : w.targets q = [] := by
  rw [targets, h.sendings_eq_nil hq]
  rfl

end World

/-! ## Two nodes

A small world, for instances of what is stated about all of them. -/

/-- A roster of two nodes. -/
def Roster.pair : Roster := ⟨["http://a", "http://b"], "acme"⟩

namespace Planned

/-- The node is not reached. -/
def refusal : Planned := ⟨.failure true (some "http://n") "connection refused", none⟩

/-- The node is reached, but the attempt fails. -/
def broken : Planned := ⟨.failure false (some "http://n") "connection closed", none⟩

end Planned

namespace World

/-- One client on two nodes, with the pointer at a place. -/
def pair (lead : Nat) : World :=
  { routers := [⟨.pair, lead⟩], handles := [⟨0, .nil⟩] }

/-- A client of two nodes, with the pointer on one of them. -/
theorem WellFormed.pair {lead : Nat} (h : lead < 2) : (pair lead).WellFormed := by
  refine .of_idle rfl rfl ?_
  intro r hr
  obtain rfl := List.mem_singleton.mp hr
  exact h

end World

end ClusterClient
