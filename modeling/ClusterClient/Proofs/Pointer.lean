import Mathlib.Data.List.Chain
import Mathlib.Data.Nat.ModEq
import ClusterClient.Proofs.Course
import ClusterClient.Proofs.Turns

/-!
# The accounts of a pointer

The pointer of a router moves by one place of the ring at a time, and only when a call on it hears
a refusal from the very place that the pointer has. So the pointer is the number of such advances,
counted round the ring, whatever calls there are and however they interleave.

* **`World.advances`**, **`World.advanceCount`**: the acts that move a pointer on, and how many of
  them a schedule has.
* **`World.lead_exec`**: the pointer after a schedule, by the number of advances.
* **`World.inFlight_of_unheard`**: an attempt whose outcome has not been heard keeps the place it
  was sent to. With the above, a refusal moves the pointer on exactly when whole rounds of advances,
  or none, have been made since the attempt was sent.
* **`World.Parted`**: when calls give way only while they wait, a call that has been refused leaves
  the place, or finds it left, before it sends its next attempt.
-/

namespace ClusterClient

/-! ## Steps round the ring -/

namespace Router

/-- The place that lies a number of steps ahead of the pointer. -/
def ahead (r : Router) (steps : Nat) : Nat :=
  (r.lead + steps) % r.roster.size

/-- The router with the pointer a number of steps ahead. -/
def moved (r : Router) (steps : Nat) : Router :=
  { r with lead := r.ahead steps }

@[simp] theorem moved_roster (r : Router) (k : Nat) : (r.moved k).roster = r.roster := rfl

@[simp] theorem moved_lead (r : Router) (k : Nat) : (r.moved k).lead = r.ahead k := rfl

theorem moved_ahead (r : Router) (k m : Nat) : (r.moved k).ahead m = r.ahead (k + m) := by
  simp [ahead, Nat.add_assoc]

/-- Moving on and on is moving once, by the sum. -/
theorem moved_moved (r : Router) (k m : Nat) : (r.moved k).moved m = r.moved (k + m) := by
  rw [moved, moved_ahead]
  rfl

theorem moved_zero {r : Router} (h : r.lead < r.roster.size) : r.moved 0 = r := by
  rw [moved, ahead, Nat.add_zero, Nat.mod_eq_of_lt h]

/-- A whole round leads back. -/
theorem moved_round (r : Router) : r.moved (r.roster.size + 1) = r.moved 1 := by
  rw [moved, ahead, Nat.add_left_comm, Nat.add_mod_left]
  rfl

/-- The next place is one move further. -/
theorem moved_next (r : Router) (k : Nat) :
    { r.moved k with lead := (r.moved k).roster.next (r.moved k).lead } = r.moved (k + 1) := by
  simp [moved, ahead, Roster.next, Nat.add_assoc]

end Router

namespace World

/-! ## Advances -/

/-- Whether an act moves the pointer of a router on: a call on it hears a refusal from the place
that the pointer has. -/
def advances (w : World) (n : Nat) (a : Act) : Bool :=
  match w.hearing? a, w.router? n with
  | some h, some r => h.router = n && h.outcome.isRefusal && r.lead = h.target
  | _, _ => false

/-- How many acts of a schedule do. -/
def advanceCount (w : World) (n : Nat) (acts : List Act) : Nat :=
  (w.along acts).countP fun x => x.1.advances n x.2

@[simp] theorem advanceCount_nil (w : World) (n : Nat) : w.advanceCount n [] = 0 := rfl

/-- Advances are counted part by part. -/
theorem advanceCount_append (w : World) (n : Nat) (as bs : List Act) :
    w.advanceCount n (as ++ bs) = w.advanceCount n as + (w.exec as).advanceCount n bs := by
  simp only [advanceCount, along_append, List.countP_append]

/-- One more act is one advance more, if it is one. -/
theorem advanceCount_concat (w : World) (n : Nat) (as : List Act) (a : Act) :
    w.advanceCount n (as ++ [a]) =
      w.advanceCount n as + if (w.exec as).advances n a then 1 else 0 := by
  simp only [advanceCount, along_concat, List.countP_append, List.countP_cons, List.countP_nil]
  omega

/-- **The advance with a number**, counted from nought, and the moment at which it is made. -/
theorem exists_advance {w : World} {n k : Nat} {acts : List Act} (hk : k < w.advanceCount n acts) :
    ∃ before a after, acts = before ++ a :: after ∧ (w.exec before).advances n a = true ∧
      w.advanceCount n before = k := by
  induction acts using List.reverseRecOn with
  | nil => exact absurd hk (Nat.not_lt_zero k)
  | append_singleton acts a ih =>
    by_cases hlt : k < w.advanceCount n acts
    · obtain ⟨before, b, after, rfl, hadvances, hcount⟩ := ih hlt
      exact ⟨before, b, after ++ [a], by simp, hadvances, hcount⟩
    · rw [advanceCount_concat] at hk
      -- the last act of all is the one
      have hadvances : (w.exec acts).advances n a = true := by
        by_contra hnot
        rw [if_neg hnot] at hk
        exact hlt hk
      rw [if_pos hadvances] at hk
      exact ⟨acts, a, [], rfl, hadvances, by omega⟩

/-! ## The pointer by the number of advances -/

/-- An advance is a refusal on the router whose target is where the pointer is. -/
theorem advances_of_hearing {w : World} {n : Nat} {a : Act} {h : Hearing} {r : Router}
    (hh : w.hearing? a = some h) (hr : w.router? n = some r) :
    w.advances n a = (h.router = n && h.outcome.isRefusal && r.lead = h.target) := by
  simp [advances, hh, hr]

/-- **What an advance is**: a call on the router hears a refusal from where the pointer is. -/
theorem exists_hearing_of_advances {w : World} {n : Nat} {a : Act} {r : Router}
    (h : w.advances n a = true) (hr : w.router? n = some r) :
    ∃ x, w.hearing? a = some x ∧ x.router = n ∧ x.outcome.isRefusal = true ∧
      x.target = r.lead := by
  cases hx : w.hearing? a with
  | none => simp [advances, hx] at h
  | some x =>
    rw [advances_of_hearing hx hr] at h
    simp only [Bool.and_eq_true, decide_eq_true_eq] at h
    obtain ⟨⟨hn, hrefusal⟩, hlead⟩ := h
    exact ⟨x, rfl, hn, hrefusal, hlead.symm⟩

/-- A router that does not exist does not advance. -/
theorem not_advances_of_router?_eq_none {w : World} {n : Nat} (a : Act)
    (hr : w.router? n = none) : w.advances n a = false := by
  unfold advances
  rw [hr]
  split
  · next h => cases h
  · rfl

/-- **The router after an act**: one place further on if the act is an advance, else the same. -/
theorem router?_act_eq {w : World} {n : Nat} {r : Router} (hr : w.router? n = some r) (a : Act) :
    (w.act a).router? n =
      some (if w.advances n a then { r with lead := r.roster.next r.lead } else r) := by
  rw [router?_act hr]
  cases hh : w.hearing? a with
  | none => simp [advances, hh]
  | some h =>
    rw [advances_of_hearing hh hr]
    by_cases hn : h.router = n
    · by_cases ho : h.outcome.isRefusal
      · by_cases hlead : r.lead = h.target
        · simp [hn, ho, hlead, Router.hear, Router.leave]
        · simp [hn, ho, hlead, Router.hear, Router.leave]
      · simp [hn, ho, Router.hear]
    · simp [hn]

/-- **The pointer after a schedule.** -/
theorem lead_exec {w : World} {n : Nat} {r : Router} (hr : w.router? n = some r)
    (hlt : r.lead < r.roster.size) (acts : List Act) :
    (w.exec acts).router? n = some (r.moved (w.advanceCount n acts)) := by
  induction acts using List.reverseRecOn with
  | nil => simp [hr, Router.moved_zero hlt]
  | append_singleton acts a ih =>
    rw [exec_concat, router?_act_eq ih, advanceCount_concat]
    split
    · rw [Router.moved_next]
    · rfl

/-- No act takes a router away. -/
theorem router?_eq_none_of_act {w : World} {n : Nat} {a : Act}
    (hn : (w.act a).router? n = none) : w.router? n = none := by
  cases h : w.router? n with
  | none => rfl
  | some r =>
    rw [router?_act_eq h] at hn
    cases hn

/-- A router that a run does not have never advanced along it. -/
theorem advanceCount_eq_zero {w : World} {n : Nat} {acts : List Act}
    (hn : (w.exec acts).router? n = none) :
    w.router? n = none ∧ w.advanceCount n acts = 0 := by
  induction acts using List.reverseRecOn with
  | nil => exact ⟨hn, rfl⟩
  | append_singleton acts a ih =>
    rw [exec_concat] at hn
    have hbefore := router?_eq_none_of_act hn
    obtain ⟨hnone, hzero⟩ := ih hbefore
    refine ⟨hnone, ?_⟩
    rw [advanceCount_concat, hzero, not_advances_of_router?_eq_none a hbefore]
    rfl

/-- The pointer of any router after a schedule, also of one that has come into being meanwhile:
it started at the first place. -/
theorem lead_exec_of_router? {w : World} (hw : w.WellFormed) {acts : List Act} {n : Nat}
    {r : Router} (hr : (w.exec acts).router? n = some r) :
    r.lead = ((w.router? n).elim 0 Router.lead + w.advanceCount n acts) % r.roster.size := by
  induction acts using List.reverseRecOn generalizing r with
  | nil =>
    rw [exec_nil] at hr
    simp [hr, Nat.mod_eq_of_lt (hw.lead_lt n r hr)]
  | append_singleton acts a ih =>
    rw [exec_concat] at hr
    rw [advanceCount_concat]
    cases hn : (w.exec acts).router? n with
    | none =>
      obtain ⟨hnone, hzero⟩ := advanceCount_eq_zero hn
      obtain ⟨hlead, -⟩ := router?_act_of_none hn hr
      simp [hnone, hzero, hlead, not_advances_of_router?_eq_none a hn]
    | some r₀ =>
      rw [router?_act_eq hn] at hr
      obtain rfl := Option.some.inj hr
      have hlead := ih hn
      split
      · simp [Roster.next, hlead, Nat.add_assoc]
      · simpa using hlead

/-! ## An attempt and the advances that it misses -/

/-- An act that sends an attempt sends it to the place that the pointer has, and leaves the pointer
there. -/
theorem inFlight_of_sendings {w : World} {q : Nat} {s : Sending}
    (hs : (w.act (.work q)).sendings q = w.sendings q ++ [s]) :
    ∃ job r attempt arrived, (w.act (.work q)).jobs[q]? = some job ∧
      w.router? job.router = some r ∧ (w.act (.work q)).router? job.router = some r ∧
      s.place = r.lead ∧ job.call.phase = .inFlight attempt r.lead arrived := by
  have hne : (w.act (.work q)).sendings q ≠ w.sendings q := by simp [hs]
  obtain ⟨-, job, r, attempt, -, hr, -, hjob, hr', hsent⟩ := sendings_act_of_ne hne
  have hplace : s = ⟨r.lead, r.leadEndpoint, job.call.request⟩ :=
    List.singleton_inj.mp (List.append_cancel_left (hs.symm.trans hsent))
  exact ⟨_, r, attempt, _, hjob, hr, hr', congrArg Sending.place hplace, Call.send_phase _ _ _⟩

/-- **An attempt keeps its place.** As long as the call hears nothing, the attempt that it has in
flight stays the one that was sent, or the call has ended. -/
theorem inFlight_of_unheard {w : World} {q : Nat} {job : Job} {attempt target : Nat}
    {arrived : Option Planned} (hjob : w.jobs[q]? = some job)
    (hphase : job.call.phase = .inFlight attempt target arrived) {acts : List Act}
    (hnone : w.heardBy q acts = []) :
    ∃ job', (w.exec acts).jobs[q]? = some job' ∧ job'.router = job.router ∧
      ((∃ arrived', job'.call.phase = .inFlight attempt target arrived') ∨
        job'.call.isEnded = true) := by
  induction acts using List.reverseRecOn with
  | nil => exact ⟨job, hjob, rfl, .inl ⟨arrived, hphase⟩⟩
  | append_singleton acts a ih =>
    rw [heardBy, hearings_concat, List.filter_append, List.append_eq_nil_iff] at hnone
    obtain ⟨old, hold, hrouter, hstate⟩ := ih hnone.1
    rw [exec_concat]
    have hlt : q < ((w.exec acts).act a).jobs.length :=
      Nat.lt_of_lt_of_le (job_lt hold) (jobs_length_le_act _ a)
    have hnew := List.getElem?_eq_getElem hlt
    refine ⟨_, hnew, ?_⟩
    cases was_of_act hnew with
    | started act_eq router new job_eq unsent unheard =>
      have := job_lt hold
      omega
    | kept before unsent unheard =>
      obtain rfl := Option.some.inj (before.symm.trans hold)
      exact ⟨hrouter, hstate⟩
    | arrived act_eq before delivered job_eq unsent unheard =>
      obtain rfl := Option.some.inj (before.symm.trans hold)
      obtain ⟨attempt', place', hphase', rfl⟩ := Call.deliver?_eq_some delivered
      rw [job_eq]
      refine ⟨hrouter, ?_⟩
      rcases hstate with ⟨arrived', hin⟩ | hended
      · rw [hin] at hphase'
        cases hphase'
        exact .inl ⟨_, rfl⟩
      · simp [Call.isEnded, hphase'] at hended
    | worked act_eq before router piece job_eq sent =>
      obtain rfl := Option.some.inj (hold.symm.trans before)
      rw [job_eq]
      refine ⟨hrouter, .inr ?_⟩
      have unpoised : ∀ k, old.call.phase ≠ .poised k := by
        intro k hk
        rcases hstate with ⟨arrived', hin⟩ | hended
        · rw [hin] at hk
          cases hk
        · simp [Call.isEnded, hk] at hended
      rw [act_eq, hearing?_work before router] at hnone
      cases piece with
      | exhausted phase | withdrawn phase | sent phase => exact absurd phase (unpoised _)
      | interrupted | concluded => rfl
      | refused phase unfired refusal =>
        -- the one branch that goes on is heard
        rw [unfired, Call.heard?_of_arrived _ phase] at hnone
        simp at hnone

/-- From a place of a ring, a number of steps leads back to it exactly when they are whole
rounds. -/
theorem round_iff {size place steps : Nat} (h : place < size) :
    (place + steps) % size = place ↔ size ∣ steps := by
  have hround : (place + steps) % size = place % size ↔ size ∣ steps := Nat.add_modEq_left_iff
  rwa [Nat.mod_eq_of_lt h] at hround

/-- **A refusal and the advances that its attempt has missed.** The refusal of an attempt moves the
pointer on exactly when whole rounds of advances, or none, have been made since the attempt was
sent; the pointer is then at the place that the attempt was sent to. -/
theorem advances_iff_of_sendings {w : World} (hw : w.WellFormed) {q : Nat} {s : Sending}
    {acts : List Act} {h : Hearing} (hs : (w.act (.work q)).sendings q = w.sendings q ++ [s])
    (hnone : (w.act (.work q)).heardBy q acts = [])
    (hh : ((w.act (.work q)).exec acts).hearing? (.work q) = some h)
    (ho : h.outcome.isRefusal = true) :
    ∃ r r', w.router? h.router = some r ∧
      ((w.act (.work q)).exec acts).router? h.router = some r' ∧ r'.roster = r.roster ∧
      s.place = r.lead ∧ h.target = r.lead ∧
      (((w.act (.work q)).exec acts).advances h.router (.work q) = true ↔
        r.roster.size ∣ (w.act (.work q)).advanceCount h.router acts) ∧
      (r.roster.size ∣ (w.act (.work q)).advanceCount h.router acts → r'.lead = r.lead) := by
  obtain ⟨job, r, attempt, arrived, hjob, hr, hr', hplace, hphase⟩ := inFlight_of_sendings hs
  obtain ⟨job', hjob', hrouter, hstate⟩ := inFlight_of_unheard hjob hphase hnone
  obtain ⟨hwork, job'', r'', p, hjob'', hrouter'', hr'', hphase'', -, -⟩ := hearing?_eq_some hh
  obtain rfl : q = h.caller := by simpa using hwork
  obtain rfl := Option.some.inj (hjob'.symm.trans hjob'')
  have hn : h.router = job.router := hrouter''.symm.trans hrouter
  -- the attempt that is answered is the one that was sent
  have htarget : h.target = r.lead := by
    rcases hstate with ⟨arrived', hin⟩ | hended
    · rw [hphase'', Phase.inFlight.injEq] at hin
      exact hin.2.1
    · simp [Call.isEnded, hphase''] at hended
  have hlt : r.lead < r.roster.size := hw.lead_lt _ r hr
  have hlead := hn ▸ lead_exec hr' hlt acts
  refine ⟨r, _, hn ▸ hr, hlead, rfl, hplace, htarget, ?_, (round_iff hlt).mpr⟩
  rw [advances_of_hearing hh hlead, htarget]
  simp [ho, Router.ahead, round_iff hlt]

end World

/-! ## A call that has been refused finds the place left -/

/-- On a ring of two places or more the next place is another one. -/
theorem Roster.next_ne {r : Roster} {place : Nat} (h : place < r.size) (htwo : 2 ≤ r.size) :
    r.next place ≠ place := by
  unfold next
  -- on the last place the next one is the first
  by_cases hlast : place + 1 < r.size
  · rw [Nat.mod_eq_of_lt hlast]
    omega
  · rw [show place + 1 = r.size by omega, Nat.mod_self]
    omega

/-- After a place is left, the pointer is not on it. -/
theorem Router.leave_lead_ne {r : Router} (h : r.lead < r.roster.size) (htwo : 2 ≤ r.roster.size)
    (place : Nat) : (r.leave place).lead ≠ place := by
  rw [leave_lead_eq]
  split
  · next heq =>
    rw [← heq]
    exact Roster.next_ne h htwo
  · next hne => exact hne

namespace World

/-- Successive attempts of a call go to different places, on a ring of two places or more. -/
def Parted (w : World) (q : Nat) : Prop :=
  ∀ (job : Job) (r : Router), w.jobs[q]? = some job → w.router? job.router = some r →
    2 ≤ r.roster.size →
      (w.targets q).IsChain (· ≠ ·) ∧
      ∀ attempt target arrived, job.call.phase = .inFlight attempt target arrived →
        (w.targets q).getLast? = some target

/-- A call that is about to send an attempt finds the place of its last one left. -/
def FindsLeft (w : World) (q : Nat) : Prop :=
  ∀ (job : Job) (r : Router) (attempt : Nat), w.jobs[q]? = some job →
    w.router? job.router = some r → 2 ≤ r.roster.size → job.call.phase = .poised attempt →
      ∀ target ∈ (w.targets q).getLast?, r.lead ≠ target

/-- A call that is about to send an attempt has sent none. Between turns this is so. -/
def FirstOnly (w : World) (q : Nat) : Prop :=
  ∀ (job : Job) (attempt : Nat), w.jobs[q]? = some job → job.call.phase = .poised attempt →
    w.targets q = []

/-- A call that has not sent has no last place to be found on. -/
theorem FirstOnly.findsLeft {w : World} {q : Nat} (h : w.FirstOnly q) : w.FindsLeft q := by
  intro job r attempt hjob _ _ hphase target htarget
  rw [h job attempt hjob hphase] at htarget
  cases htarget

/-- **A call's own work parts its attempts.** -/
theorem Parted.work {w : World} (hw : w.WellFormed) {q : Nat} (h : w.Parted q)
    (hleft : w.FindsLeft q) :
    (w.act (.work q)).Parted q ∧ (w.act (.work q)).FindsLeft q := by
  rcases act_work_cases w q with ⟨-, hact⟩ | ⟨job, r, m, hjob, hr, hpiece, hact⟩
  · rw [hact]
    exact ⟨h, hleft⟩
  · have hn : job.router < w.routers.length := router?_lt hr
    have hjobs : (w.after q job m).jobs[q]? = some { job with call := m.call } :=
      jobs_after_self hjob m
    have hrouters : (w.after q job m).router? job.router = some m.router := by
      simp [after, router?, hn]
    have htargets : (w.after q job m).targets q = w.targets q ++ m.sendings.map Sending.place :=
      targets_of_sendings (by rw [sendings_after, if_pos rfl])
    have hroster : m.router.roster = r.roster := by
      rw [hpiece.router_eq]
      split
      · split <;> simp
      · rfl
    -- it is enough to look at this call with this router
    have key : (2 ≤ r.roster.size →
        ((w.targets q ++ m.sendings.map Sending.place).IsChain (· ≠ ·) ∧
          ∀ attempt target arrived, m.call.phase = .inFlight attempt target arrived →
            (w.targets q ++ m.sendings.map Sending.place).getLast? = some target) ∧
        ∀ attempt, m.call.phase = .poised attempt →
          ∀ target ∈ (w.targets q ++ m.sendings.map Sending.place).getLast?,
            m.router.lead ≠ target) →
        (w.act (.work q)).Parted q ∧ (w.act (.work q)).FindsLeft q := by
      intro hkey
      rw [hact]
      constructor
      · intro job' r' hjob' hr' htwo
        obtain rfl := Option.some.inj (hjobs.symm.trans hjob')
        obtain rfl := Option.some.inj (hrouters.symm.trans hr')
        rw [htargets]
        exact (hkey (hroster ▸ htwo)).1
      · intro job' r' attempt hjob' hr' htwo hphase
        obtain rfl := Option.some.inj (hjobs.symm.trans hjob')
        obtain rfl := Option.some.inj (hrouters.symm.trans hr')
        rw [htargets]
        exact (hkey (hroster ▸ htwo)).2 attempt hphase
    apply key
    intro htwo
    obtain ⟨hchain, hlast⟩ := h job r hjob hr htwo
    cases hpiece with
    | exhausted | withdrawn | interrupted | concluded =>
      -- nothing is sent, and the call is not ready for an attempt
      simpa using hchain
    | @sent attempt phase left unfired =>
      -- the place of the last attempt has been left, so the new one goes to another
      have hfinds := hleft job r attempt hjob hr htwo phase
      simp only [Call.send_sendings, List.map_cons, List.map_nil, Call.send_phase]
      refine ⟨⟨hchain.append (.singleton _) ?_, ?_⟩, fun _ hphase => by cases hphase⟩
      · intro x hx y hy
        obtain rfl : r.lead = y := by simpa using hy
        exact (hfinds x hx).symm
      · intro _ target _ hphase
        cases hphase
        simp
    | @refused attempt target p phase unfired refusal =>
      -- after its refusal the call finds the pointer elsewhere
      simp only [Move.sendings, Call.refusal_sendings, List.map_nil, List.append_nil]
      refine ⟨⟨hchain, fun _ _ _ hphase => by cases hphase⟩, ?_⟩
      intro _ _ t ht
      rw [hlast attempt target _ phase] at ht
      obtain rfl : target = t := by simpa using ht
      exact Router.leave_lead_ne (hw.lead_lt _ r hr) htwo target

/-- An act other than the call's own work keeps both. -/
theorem Parted.act_of_ne {w : World} (hw : w.WellFormed) {q : Nat} {a : Act} (ha : a ≠ .work q)
    (h : w.Parted q) (hfirst : w.FirstOnly q) : (w.act a).Parted q ∧ (w.act a).FirstOnly q := by
  -- the call was there before, with the same router, or it is new and has sent nothing
  have key : ∀ job : Job, (w.act a).jobs[q]? = some job →
      (w.act a).targets q = [] ∧ (∃ attempt, job.call.phase = .poised attempt) ∨
      ∃ old, w.jobs[q]? = some old ∧ old.router = job.router ∧
        (w.act a).targets q = w.targets q ∧
        (∀ attempt, job.call.phase = .poised attempt → old.call.phase = .poised attempt) ∧
        (∀ attempt target arrived, job.call.phase = .inFlight attempt target arrived →
          ∃ arrived', old.call.phase = .inFlight attempt target arrived') := by
    intro job hjob
    cases was_of_act hjob with
    | started act_eq router new job_eq unsent unheard =>
      left
      rw [targets_of_unsent unsent, hw.targets_eq_nil (by omega), job_eq]
      exact ⟨rfl, 1, rfl⟩
    | kept before unsent unheard =>
      right
      exact ⟨job, before, rfl, targets_of_unsent unsent, fun _ h => h,
        fun _ _ arrived h => ⟨arrived, h⟩⟩
    | @arrived old p call act_eq before delivered job_eq unsent unheard =>
      right
      obtain ⟨attempt, place, hphase, rfl⟩ := Call.deliver?_eq_some delivered
      subst job_eq
      refine ⟨old, before, rfl, targets_of_unsent unsent, ?_, ?_⟩
      · intro _ h
        cases h
      · intro _ _ _ h
        cases h
        exact ⟨none, hphase⟩
    | worked act_eq => exact absurd act_eq ha
  constructor
  · intro job r hjob hr htwo
    rcases key job hjob with ⟨hnil, _, hphase⟩ | ⟨old, hold, hrouter, htargets, -, hin⟩
    · rw [hnil, hphase]
      exact ⟨.nil, fun _ _ _ h => by cases h⟩
    · obtain ⟨r₀, hr₀, hroster⟩ := hw.router_before hold (hrouter ▸ hr)
      rw [hroster] at htwo
      obtain ⟨hchain, hlast⟩ := h old r₀ hold hr₀ htwo
      rw [htargets]
      refine ⟨hchain, ?_⟩
      intro attempt target arrived hphase
      obtain ⟨arrived', hphase'⟩ := hin attempt target arrived hphase
      exact hlast attempt target arrived' hphase'
  · intro job attempt hjob hphase
    rcases key job hjob with ⟨hnil, -⟩ | ⟨old, hold, -, htargets, hpoised, -⟩
    · exact hnil
    · rw [htargets]
      exact hfirst old attempt hold (hpoised attempt hphase)

/-- The work of one turn, up to where the call waits, keeps both. -/
theorem Parted.run {w : World} (hw : w.WellFormed) {q : Nat} (h : w.Parted q)
    (hfirst : w.FirstOnly q) : (w.run q).Parted q ∧ (w.run q).FirstOnly q := by
  obtain ⟨k, hk⟩ := run_eq_exec w q
  -- within a turn nobody else moves the pointer
  have hrow : ∀ k, (w.exec (List.replicate k (.work q))).Parted q ∧
      (w.exec (List.replicate k (.work q))).FindsLeft q := by
    intro k
    induction k with
    | zero => exact ⟨h, hfirst.findsLeft⟩
    | succ k ih =>
      rw [List.replicate_succ', exec_concat]
      exact ih.1.work (hw.exec _) ih.2
  refine ⟨hk ▸ (hrow k).1, ?_⟩
  intro job attempt hjob hphase
  -- a call that is ready for an attempt would still have something to do
  have hrest := work?_run hw q
  have hwf : (w.run q).WellFormed := hk ▸ hw.exec _
  obtain ⟨r, hr, -⟩ := hwf.fits q job hjob
  obtain ⟨m, hm⟩ := Option.isSome_iff_exists.mp
    (Call.move_isSome_of_poised hphase r ((w.run q).isCancelled job.call))
  rw [work?_eq_some_iff.mpr ⟨job, r, m, hjob, hr, hm, rfl⟩] at hrest
  cases hrest

/-- So does a turn: an act, and the work that it makes possible. -/
theorem Parted.turn {w : World} (hw : w.WellFormed) {q : Nat} (h : w.Parted q)
    (hfirst : w.FirstOnly q) (a : Act) : (w.turn a).Parted q ∧ (w.turn a).FirstOnly q := by
  rcases a.work_or with ⟨q', rfl⟩ | hne
  · by_cases hq : q' = q
    · subst hq
      exact h.run hw hfirst
    · obtain ⟨k, hk⟩ := run_eq_exec w q'
      have hrow : ∀ k, (w.exec (List.replicate k (.work q'))).Parted q ∧
          (w.exec (List.replicate k (.work q'))).FirstOnly q := by
        intro k
        induction k with
        | zero => exact ⟨h, hfirst⟩
        | succ k ih =>
          rw [List.replicate_succ', exec_concat]
          exact ih.1.act_of_ne (hw.exec _) (by simpa using hq) ih.2
      simp only [World.turn, hk]
      exact hrow k
  · rw [turn_of_ne_work hne]
    exact h.act_of_ne hw (hne q) hfirst

/-- **Attempts part when calls give way only while they wait.** -/
theorem parted_turns {w : World} (hw : w.WellFormed) {q : Nat} (hq : w.jobs.length ≤ q)
    (acts : List Act) : (w.turns acts).Parted q ∧ (w.turns acts).FirstOnly q := by
  induction acts using List.reverseRecOn with
  | nil =>
    -- to begin with there is no such call
    have hnone : ∀ job : Job, w.jobs[q]? ≠ some job := fun job => not_job hq
    exact ⟨fun job _ hjob => absurd hjob (hnone job), fun job _ hjob => absurd hjob (hnone job)⟩
  | append_singleton acts a ih =>
    rw [turns_append]
    exact ih.1.turn (hw.turns acts) ih.2 a

/-! ## The accounts -/

/-- **The accounts of the pointers.** From any well-formed world and after any schedule:

* every pointer is a place of its roster, and it is the number of advances round the ring;
* the refusal of an attempt advances the pointer exactly when whole rounds of advances, or none,
  have been made since the attempt was sent, and then from the place that the attempt was sent to
  to the next one;
* nothing but the hearing of a refusal changes a router;
* where calls give way only while they wait, no attempt goes to the place by which the call has
  just been refused, if there are two places or more. -/
theorem pointer_accounts {w₀ : World} (h₀ : w₀.WellFormed) (acts : List Act) :
    let w := w₀.exec acts
    (∀ n r, w.router? n = some r → r.lead < r.roster.size ∧
      r.lead = ((w₀.router? n).elim 0 Router.lead + w₀.advanceCount n acts) % r.roster.size) ∧
    (∀ q s since h, (w.act (.work q)).sendings q = w.sendings q ++ [s] →
      (w.act (.work q)).heardBy q since = [] →
      ((w.act (.work q)).exec since).hearing? (.work q) = some h →
      h.outcome.isRefusal = true →
        let later := (w.act (.work q)).exec since
        let missed := (w.act (.work q)).advanceCount h.router since
        ∃ r r', w.router? h.router = some r ∧ later.router? h.router = some r' ∧
          s.place = r.lead ∧ h.target = r.lead ∧
          (later.advances h.router (.work q) = true ↔ r.roster.size ∣ missed) ∧
          (r.roster.size ∣ missed → r'.lead = r.lead ∧
            (later.act (.work q)).router? h.router =
              some { r' with lead := (r.lead + 1) % r.roster.size }) ∧
          (¬ r.roster.size ∣ missed → (later.act (.work q)).router? h.router = some r')) ∧
    (∀ a n r, w.router? n = some r →
      (∀ h, w.hearing? a = some h → h.router = n → h.outcome.isRefusal = false) →
        (w.act a).router? n = some r) ∧
    (∀ q job r, w₀.jobs.length ≤ q → (w₀.turns acts).jobs[q]? = some job →
      (w₀.turns acts).router? job.router = some r → 2 ≤ r.roster.size →
        ((w₀.turns acts).targets q).IsChain (· ≠ ·)) := by
  intro w
  have hw : w.WellFormed := h₀.exec acts
  -- index and advances, the refusal, the quiet acts, the attempts
  refine ⟨?_, ?_, ?_, ?_⟩
  · intro n r hr
    exact ⟨hw.lead_lt n r hr, lead_exec_of_router? h₀ hr⟩
  · intro q s since h hs hnone hh ho
    obtain ⟨r, r', hr, hr', hroster, hplace, htarget, hiff, hback⟩ :=
      advances_iff_of_sendings hw hs hnone hh ho
    have hafter := router?_act_eq hr' (.work q)
    refine ⟨r, r', hr, hr', hplace, htarget, hiff, ?_, ?_⟩
    · intro hround
      refine ⟨hback hround, ?_⟩
      rw [hafter, if_pos (hiff.mpr hround), Roster.next, hroster, hback hround]
    · intro hround
      rw [hafter, if_neg (hround ∘ hiff.mp)]
  · intro a n r hr hquiet
    exact router?_act_of_quiet hr hquiet
  · intro q job r hq hjob hr htwo
    exact ((parted_turns h₀ hq acts).1 job r hjob hr htwo).1

/-- Two calls, of which the first has sent an attempt. -/
def abreast : List Act :=
  [.start "x" ⟨0, .nil⟩ (.operation .backlog) none [.refusal, .broken],
    .start "y" ⟨0, .nil⟩ (.operation .backlog) none [.refusal, .broken], .work 0]

/-- Both calls are refused by the first node. The second refusal finds the pointer moved on, and
leaves it there. -/
theorem pointer_of_abreast :
    let w := (pair 0).exec abreast
    let later := (w.act (.work 1)).exec [.work 0]
    (w.act (.work 1)).advanceCount 0 [.work 0] = 1 ∧ later.advances 0 (.work 1) = false ∧
      later.router? 0 = some ⟨.pair, 1⟩ ∧
      (later.act (.work 1)).router? 0 = some ⟨.pair, 1⟩ ∧
      ((pair 0).turns abreast).targets 0 = [0, 1] ∧
      (((pair 0).turns abreast).targets 0).IsChain (· ≠ ·) := by
  intro w later
  have hwf : (pair 0).WellFormed := .pair (by decide)
  obtain ⟨-, hrefusal, -, hparted⟩ := pointer_accounts hwf abreast
  have hcount : (w.act (.work 1)).advanceCount 0 [.work 0] = 1 := rfl
  have hlater : later.router? 0 = some ⟨.pair, 1⟩ := rfl
  have hround : ¬ 2 ∣ (w.act (.work 1)).advanceCount 0 [.work 0] := by
    rw [hcount]
    decide
  obtain ⟨r, r', hr, hr', -, -, hiff, -, hstay⟩ := hrefusal 1 ⟨0, "http://a", _⟩ [.work 0]
    ⟨1, 0, 1, 0, .error ⟨true, "http://n", "connection refused"⟩⟩ rfl rfl rfl rfl
  obtain rfl : (⟨.pair, 0⟩ : Router) = r := Option.some.inj hr
  obtain rfl : (⟨.pair, 1⟩ : Router) = r' := Option.some.inj hr'
  refine ⟨hcount, ?_, hlater, hstay hround, rfl, hparted 0 _ ⟨.pair, 1⟩ (Nat.zero_le _) rfl rfl ?_⟩
  · exact Bool.eq_false_iff.mpr fun h => hround (hiff.mp h)
  · decide

end World

end ClusterClient
