import ClusterClient.Proofs.Fate
import ClusterClient.Proofs.Stretch

/-!
# Convergence to a steady leader

Let each node of a ring either serve all attempts or refuse them all. Then nobody can lead the
pointer past the first node that serves: only a refusal from the very place that the pointer has
moves it on, and that node refuses nobody. Any number of calls may share the pointer and interleave.

* **`World.Steady`** and **`Router.Leads`**: the nodes, and the first of them ahead of the pointer
  that serves.
* **`World.advanceCount_le`**: the pointer does not pass it.
* **`World.stretch_steady`**: with it, the attempts of a call go strictly ahead and no further than
  that node.
* **`World.Finishes.served`**: a call that finishes has been served.
-/

namespace ClusterClient

/-- The first place ahead of the pointer that serves lies a number of steps ahead. -/
structure Router.Leads (r : Router) (serves : Nat → Bool) (steps : Nat) : Prop where
  within : steps < r.roster.size
  serving : serves (r.ahead steps) = true
  first : ∀ e < steps, serves (r.ahead e) = false

/-- No node before the leader serves. -/
theorem Router.Leads.eq_of_serving {r : Router} {serves : Nat → Bool} {d e : Nat}
    (h : r.Leads serves d) (he : e ≤ d) (hserving : serves (r.ahead e) = true) : e = d := by
  by_contra hne
  rw [h.first e (by omega)] at hserving
  cases hserving

/-- Once the pointer has moved as far as the leader, it leads at once. -/
theorem Router.Leads.here {r : Router} {serves : Nat → Bool} {d : Nat}
    (h : r.Leads serves d) :
    (r.moved d).Leads serves 0 where
  within := Nat.lt_of_le_of_lt (Nat.zero_le d) h.within
  serving := by rw [Router.moved_ahead]; exact h.serving
  first e he := absurd he (Nat.not_lt_zero e)

namespace World

/-- Along a schedule each place of a roster either serves all attempts or refuses them all. -/
def Steady (w : World) (n : Nat) (serves : Nat → Bool) (acts : List Act) : Prop :=
  ∀ x ∈ w.hearings acts, x.router = n → x.outcome.isRefusal = !serves x.target

section Steady

variable {w : World} {n : Nat} {serves : Nat → Bool}

/-- A steady run is steady up to any moment and after it. -/
theorem Steady.of_append {as bs : List Act} (h : w.Steady n serves (as ++ bs)) :
    w.Steady n serves as ∧ (w.exec as).Steady n serves bs := by
  constructor
  · intro x hx
    refine h x ?_
    rw [hearings_append]
    exact List.mem_append_left _ hx
  · intro x hx
    refine h x ?_
    rw [hearings_append]
    exact List.mem_append_right _ hx

/-- In a steady run the last outcome is a refusal exactly if the node that was asked does not serve.
-/
theorem Steady.last {as : List Act} {a : Act} (h : w.Steady n serves (as ++ [a])) {x : Hearing}
    (hx : (w.exec as).hearing? a = some x) (hn : x.router = n) :
    x.outcome.isRefusal = !serves x.target := by
  refine h x ?_ hn
  rw [hearings_concat, hx]
  simp

end Steady

section Ring

variable {w : World} {n : Nat} {r : Router} {serves : Nat → Bool} {d : Nat}

/-- **The pointer does not pass the first node that serves.** -/
theorem advanceCount_le (hw : w.WellFormed) (hr : w.router? n = some r) (hd : r.Leads serves d)
    {acts : List Act} (hsteady : w.Steady n serves acts) : w.advanceCount n acts ≤ d := by
  induction acts using List.reverseRecOn with
  | nil => exact Nat.zero_le d
  | append_singleton acts a ih =>
    have hle := ih hsteady.of_append.1
    have hrouter := lead_exec hr (hw.lead_lt n r hr) acts
    rw [advanceCount_concat]
    split
    · next hadvances =>
      -- an advance is a refusal from the pointer's place, which is not the serving one
      obtain ⟨x, hx, hn, hrefusal, hlead⟩ := exists_hearing_of_advances hadvances hrouter
      have hserves : serves x.target = false := by
        have := hsteady.last hx hn
        rw [hrefusal] at this
        simpa using this.symm
      have hne : w.advanceCount n acts ≠ d := by
        intro heq
        rw [hlead, Router.moved_lead, heq, hd.serving] at hserves
        cases hserves
      omega
    · exact hle

/-- **Every call of a steady run asks a stretch of the ring**, which ends at the leader at the
latest. -/
theorem stretch_steady (hw : w.WellFormed) (hr : w.router? n = some r) (hd : r.Leads serves d)
    {q : Nat} (hq : w.jobs.length ≤ q) {acts : List Act} (hsteady : w.Steady n serves acts)
    {job : Job} (hjob : (w.exec acts).jobs[q]? = some job) (hn : job.router = n) :
    ∃ steps, Stretch r d ((w.exec acts).targets q) job.call.phase steps := by
  obtain ⟨steps, hsteps⟩ := stretch_exec hw hr hq acts hjob hn
  exact ⟨steps, hsteps.mono (advanceCount_le hw hr hd hsteady)⟩

/-- **No call exhausts its budget.** -/
theorem not_unreachable (hw : w.WellFormed) (hr : w.router? n = some r) (hd : r.Leads serves d)
    {q : Nat} (hq : w.jobs.length ≤ q) {acts : List Act} (hsteady : w.Steady n serves acts)
    {job : Job} (hjob : (w.exec acts).jobs[q]? = some job) (hn : job.router = n)
    (attempts nodes : Nat) :
    job.call.phase ≠ .ended (.error (.clusterUnreachable attempts nodes)) := by
  intro hphase
  obtain ⟨steps, hsteps⟩ := stretch_steady hw hr hd hq hsteady hjob hn
  obtain ⟨r', hr', hcourse⟩ := course_exec hw hq acts hjob
  obtain rfl : r' = r.moved (w.advanceCount n acts) := by
    rw [hn, lead_exec hr (hw.lead_lt n r hr)] at hr'
    exact (Option.some.inj hr').symm
  have hlength := hsteps.length_le
  have hwithin := hd.within
  rw [hphase] at hcourse
  generalize hresult : (Except.error (.clusterUnreachable attempts nodes) : Except Fault Reply) =
    result at hcourse
  cases hcourse with
  | exhausted refused asked spent =>
    -- one attempt more than nodes, on a stretch that ends at a node of the ring
    rw [asked, List.length_map, spent, Router.moved_roster] at hlength
    omega
  | @concluded before last =>
    -- the last outcome is no exhaustion
    obtain ⟨e, he⟩ := Outcome.transport_of_mapError hresult.symm
    cases he
  | withdrawn | interrupted => cases hresult

/-- **A call that finishes has been served** by the first node that serves. -/
theorem Finishes.served (hw : w.WellFormed) (hr : w.router? n = some r) (hd : r.Leads serves d)
    {q : Nat} {acts : List Act} (hsteady : w.Steady n serves acts) {job : Job}
    {result : Except Fault Reply} (h : w.Finishes acts q job result) (hn : job.router = n) :
    ∃ x, (w.heardBy q acts).getLast? = some x ∧ x.target = r.ahead d ∧
      x.outcome.isRefusal = false ∧ result = x.outcome.mapError Fault.transport := by
  obtain ⟨steps, hsteps⟩ := stretch_steady hw hr hd h.new hsteady h.found hn
  obtain ⟨r', hr', hcourse⟩ := course_exec hw h.new acts h.found
  have hreachable := not_unreachable hw hr hd h.new hsteady h.found hn
  rw [h.ended] at hcourse hreachable
  cases hcourse with
  | exhausted => exact absurd rfl (hreachable _ _)
  | @concluded before last heard_eq refused final asked within =>
    have hlast : last ∈ w.heardBy q acts := by simp [heard_eq]
    obtain ⟨hmem, hcaller⟩ := mem_heardBy.mp hlast
    have hserves : serves last.target = true := by
      have hrouter : last.router = n :=
        (router_of_mem_hearings hmem (hcaller.symm ▸ h.found)).trans hn
      have := hsteady last hmem hrouter
      rw [final] at this
      simpa using this.symm
    -- the place is on the stretch, and there only the first one serves
    have htarget : last.target ∈ steps.map r.ahead := by
      rw [← hsteps.targets, asked]
      exact List.mem_map_of_mem hlast
    obtain ⟨e, he, hahead⟩ := List.mem_map.mp htarget
    have hed : e = d := hd.eq_of_serving (hsteps.behind e he) (by rw [hahead]; exact hserves)
    exact ⟨last, by simp [heard_eq], by rw [← hahead, hed], final, rfl⟩
  | withdrawn fired | interrupted fired =>
    rcases h.uncancelled with hc | hc
    · rw [fired] at hc
      cases hc
    · exact absurd rfl (hc _)

/-- Once some call has asked the leader, the pointer has moved to it and does not move on. -/
theorem advanceCount_eq (hw : w.WellFormed) (hr : w.router? n = some r) (hd : r.Leads serves d)
    {q : Nat} (hq : w.jobs.length ≤ q) {acts : List Act} (hsteady : w.Steady n serves acts)
    {job : Job} (hjob : (w.exec acts).jobs[q]? = some job) (hn : job.router = n)
    (hsent : r.ahead d ∈ (w.exec acts).targets q) : w.advanceCount n acts = d := by
  obtain ⟨steps, hsteps⟩ := stretch_exec hw hr hq acts hjob hn
  have hle := advanceCount_le hw hr hd hsteady
  rw [hsteps.targets] at hsent
  obtain ⟨e, he, hahead⟩ := List.mem_map.mp hsent
  have hbehind := hsteps.behind e he
  have hed : e = d := hd.eq_of_serving (by omega) (by rw [hahead]; exact hd.serving)
  omega

/-- A call that begins when the pointer is on the leader asks nobody else. -/
theorem targets_of_served (hw : w.WellFormed) (hr : w.router? n = some r) (hd : r.Leads serves 0)
    {q : Nat} {acts : List Act} (hsteady : w.Steady n serves acts) {job : Job}
    {result : Except Fault Reply} (h : w.Finishes acts q job result) (hn : job.router = n) :
    (w.exec acts).targets q = [r.ahead 0] := by
  obtain ⟨steps, hsteps⟩ := stretch_steady hw hr hd h.new hsteady h.found hn
  obtain ⟨x, hx, -⟩ := h.served hw hr hd hsteady hn
  obtain ⟨-, -, -, htargets⟩ := h.fate hw
  -- it has sent one at least, and one at most
  have hpos : 0 < ((w.exec acts).targets q).length := by
    rw [htargets, List.length_map]
    exact List.length_pos_of_mem (List.mem_of_getLast? hx)
  have hle := hsteps.length_le
  obtain ⟨target, htarget⟩ := List.length_eq_one_iff.mp (Nat.le_antisymm hle hpos)
  have hmem : target ∈ steps.map r.ahead := by
    rw [← hsteps.targets, htarget]
    exact List.mem_singleton.mpr rfl
  obtain ⟨e, he, hahead⟩ := List.mem_map.mp hmem
  have hzero : e = 0 := Nat.le_zero.mp (hsteps.behind e he)
  rw [htarget, ← hahead, hzero]

/-- **Convergence.** Let each node of a ring serve all attempts or refuse them all, and let the
first one ahead of the pointer that serves lie `d` steps ahead. Whatever calls are made, and
however they interleave:

* the pointer is at most `d` steps ahead at every moment;
* the attempts of a call go strictly ahead and at most `d` steps, and no call exhausts its budget;
* a call that finishes has sent at most `d + 1` attempts, and gives back the outcome of the node
  that serves;
* from when an attempt has gone to that node, the pointer is there, and a call that is started
  later and finishes sends one attempt, to that node. -/
theorem convergence (hw : w.WellFormed) (hr : w.router? n = some r) (hd : r.Leads serves d)
    {acts : List Act} (hsteady : w.Steady n serves acts) :
    (∀ before after, acts = before ++ after →
      ∃ k ≤ d, (w.exec before).router? n = some (r.moved k)) ∧
    (∀ (q : Nat) (job : Job), w.jobs.length ≤ q → (w.exec acts).jobs[q]? = some job →
      job.router = n →
        (∃ steps : List Nat, (w.exec acts).targets q = steps.map r.ahead ∧
          steps.Pairwise (· < ·) ∧ ∀ e ∈ steps, e ≤ d) ∧
        ∀ attempts nodes,
          job.call.phase ≠ .ended (.error (.clusterUnreachable attempts nodes))) ∧
    (∀ (q : Nat) (job : Job) (result : Except Fault Reply), w.Finishes acts q job result →
      job.router = n →
        ((w.exec acts).sendings q).length ≤ d + 1 ∧
        ∃ x, (w.heardBy q acts).getLast? = some x ∧ x.target = r.ahead d ∧
          x.outcome.isRefusal = false ∧ result = x.outcome.mapError Fault.transport) ∧
    (∀ (before after : List Act) (q₀ : Nat) (job₀ : Job), acts = before ++ after →
      w.jobs.length ≤ q₀ → (w.exec before).jobs[q₀]? = some job₀ → job₀.router = n →
      r.ahead d ∈ (w.exec before).targets q₀ →
        (w.exec before).router? n = some (r.moved d) ∧
        (w.exec acts).router? n = some (r.moved d) ∧
        ∀ (q : Nat) (job : Job) (result : Except Fault Reply),
          (w.exec before).jobs.length ≤ q → w.Finishes acts q job result → job.router = n →
            (w.exec acts).targets q = [r.ahead d]) := by
  have hlt := hw.lead_lt n r hr
  refine ⟨?_, ?_, ?_, ?_⟩
  · rintro before after rfl
    exact ⟨_, advanceCount_le hw hr hd hsteady.of_append.1, lead_exec hr hlt before⟩
  · intro q job hq hjob hn
    obtain ⟨steps, hsteps⟩ := stretch_steady hw hr hd hq hsteady hjob hn
    exact ⟨⟨steps, hsteps.targets, hsteps.increasing, hsteps.behind⟩,
      not_unreachable hw hr hd hq hsteady hjob hn⟩
  · intro q job result h hn
    obtain ⟨steps, hsteps⟩ := stretch_steady hw hr hd h.new hsteady h.found hn
    have hlength := hsteps.length_le
    rw [World.targets, List.length_map] at hlength
    exact ⟨hlength, h.served hw hr hd hsteady hn⟩
  · rintro before after q₀ job₀ rfl hq₀ hjob₀ hn₀ hsent
    obtain ⟨hbefore, hafter⟩ := hsteady.of_append
    -- the rest of the schedule begins with the pointer at the node that serves
    have hhere : (w.exec before).router? n = some (r.moved d) := by
      rw [lead_exec hr hlt, advanceCount_eq hw hr hd hq₀ hbefore hjob₀ hn₀ hsent]
    have hwf := hw.exec before
    have hstays : (w.exec before).advanceCount n after = 0 :=
      Nat.le_zero.mp (advanceCount_le hwf hhere hd.here hafter)
    refine ⟨hhere, ?_, ?_⟩
    · rw [exec_append, lead_exec hhere (hwf.lead_lt n _ hhere), hstays, Router.moved_moved]
      rfl
    · intro q job result hq h hn
      have hlate : (w.exec before).Finishes after q job result :=
        ⟨hq, by rw [← exec_append]; exact h.found, h.ended,
          by rw [← exec_append]; exact h.uncancelled⟩
      rw [exec_append, targets_of_served hwf hhere hd.here hafter hlate hn, Router.moved_ahead]
      rfl

end Ring

/-- A third call after two of which one has overtaken the other. -/
def overtakenThenLate : List Act :=
  overtaken ++ [.start "z" ⟨0, .nil⟩ (.operation .backlog) none [.broken], .work 2, .work 2]

/-- The node at the second place serves, the one at the first does not. The late call asks only the
second one. -/
theorem convergence_overtaken_then_late :
    ((pair 0).exec overtakenThenLate).router? 0 = some ⟨.pair, 1⟩ ∧
      ((pair 0).exec overtakenThenLate).targets 2 = [1] := by
  have hwf : (pair 0).WellFormed := .pair (by decide)
  have hleads : (⟨.pair, 0⟩ : Router).Leads (fun place => place == 1) 1 :=
    ⟨by decide, rfl, by decide⟩
  have hall : ((pair 0).hearings overtakenThenLate).all
      (fun x => x.outcome.isRefusal == !(x.target == 1)) = true := rfl
  have hsteady : (pair 0).Steady 0 (fun place => place == 1) overtakenThenLate := by
    intro x hx _
    exact beq_iff_eq.mp (List.all_eq_true.mp hall x hx)
  obtain ⟨-, -, -, hlate⟩ := convergence hwf rfl hleads hsteady
  obtain ⟨-, hpointer, htargets⟩ := hlate overtaken _ 0 _ rfl (Nat.zero_le _) rfl rfl
    (by decide)
  exact ⟨hpointer, htargets 2 _ _ (by decide) ⟨Nat.zero_le _, rfl, rfl, .inl rfl⟩ rfl⟩

end World

end ClusterClient
