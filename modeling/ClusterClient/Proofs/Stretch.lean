import Mathlib.Data.List.Perm.Subperm
import ClusterClient.Proofs.Pointer

/-!
# The stretch of the ring that a call has come along

A call sends each attempt to where the pointer is, and when it is ready for the next one the pointer
has left that place: the refusal has moved it on, or somebody else had. So in steps from where the
pointer once was, the attempts of a call go strictly ahead, whatever other calls do meanwhile, and
whatever the nodes are.

* **`World.Stretch`**: the attempts of a call by the number of steps at which each was sent.
* **`World.Stretch.act`**: the step. One act keeps a call on a stretch.
* **`World.Stretch.exec`**, **`World.stretch_exec`**: the run, from any world and from one in which
  the call has not been started.
* **`World.Stretch.length_le`**, **`World.Stretch.length_le_of_poised`**: attempts cost advances. A
  call that is ready for another attempt has seen one advance for each attempt so far.
-/

namespace ClusterClient

namespace World

/-- The stretch of the ring that a call has come along, in steps from where the pointer of `r` was,
when the pointer has since made a number of advances. -/
structure Stretch (r : Router) (advances : Nat) (targets : List Nat) (phase : Phase)
    (steps : List Nat) : Prop where
  targets : targets = steps.map r.ahead
  increasing : steps.Pairwise (· < ·)
  behind : ∀ e ∈ steps, e ≤ advances
  /-- A call that is ready for an attempt has been left behind by the pointer. -/
  poised : ∀ attempt, phase = .poised attempt → ∀ e ∈ steps, e < advances
  /-- The attempt in flight is the furthest one. -/
  inFlight : ∀ attempt target arrived, phase = .inFlight attempt target arrived →
    ∃ e ∈ steps, target = r.ahead e ∧ ∀ e' ∈ steps, e' ≤ e

namespace Stretch

variable {r : Router} {k m : Nat} {targets : List Nat} {phase : Phase} {steps : List Nat}

/-- Before its first attempt a call has asked an empty stretch. -/
theorem nil (r : Router) (k : Nat)
    (h : ∀ attempt target arrived, phase ≠ .inFlight attempt target arrived) :
    Stretch r k [] phase [] :=
  ⟨rfl, .nil, by simp, by simp, fun attempt target arrived hphase =>
    absurd hphase (h attempt target arrived)⟩

/-- A stretch up to a place is one up to any place further on. -/
theorem mono (h : Stretch r k targets phase steps) (hkm : k ≤ m) :
    Stretch r m targets phase steps where
  targets := h.targets
  increasing := h.increasing
  behind e he := Nat.le_trans (h.behind e he) hkm
  poised attempt hphase e he := Nat.lt_of_lt_of_le (h.poised attempt hphase e he) hkm
  inFlight := h.inFlight

theorem ended (h : Stretch r k targets phase steps) (result : Except Fault Reply) :
    Stretch r k targets (.ended result) steps :=
  ⟨h.targets, h.increasing, h.behind, fun _ hphase => (by cases hphase),
    fun _ _ _ hphase => by cases hphase⟩

/-- What arrives does not change who was asked. -/
theorem arrive {attempt target : Nat} {arrived arrived' : Option Planned}
    (h : Stretch r k targets (.inFlight attempt target arrived) steps) :
    Stretch r k targets (.inFlight attempt target arrived') steps where
  targets := h.targets
  increasing := h.increasing
  behind := h.behind
  poised _ hphase := by cases hphase
  inFlight _ _ _ hphase := by
    cases hphase
    exact h.inFlight attempt target arrived rfl

/-- An attempt goes to where the pointer is, further ahead than all before it. -/
theorem send {attempt : Nat} (h : Stretch r k targets (.poised attempt) steps)
    (arrived : Option Planned) :
    Stretch r k (targets ++ [r.ahead k]) (.inFlight attempt (r.ahead k) arrived)
      (steps ++ [k]) where
  targets := by simp [h.targets]
  increasing := by
    refine List.pairwise_append.mpr ⟨h.increasing, List.pairwise_singleton _ _, ?_⟩
    intro e he k' hk'
    obtain rfl := List.mem_singleton.mp hk'
    exact h.poised attempt rfl e he
  behind e he := by
    rcases List.mem_append.mp he with he | he
    · exact h.behind e he
    · exact Nat.le_of_eq (List.mem_singleton.mp he)
  poised _ hphase := by cases hphase
  inFlight _ target _ hphase := by
    cases hphase
    refine ⟨k, by simp, rfl, ?_⟩
    intro e he
    rcases List.mem_append.mp he with he | he
    · exact h.behind e he
    · exact Nat.le_of_eq (List.mem_singleton.mp he)

/-- After a refusal the pointer is ahead of the attempt: it was, or the refusal has moved it on. -/
theorem refused {attempt target : Nat} {arrived : Option Planned}
    (h : Stretch r k targets (.inFlight attempt target arrived) steps)
    (hm : m = k + if r.ahead k = target then 1 else 0) (next : Nat) :
    Stretch r m targets (.poised next) steps where
  targets := h.targets
  increasing := h.increasing
  behind e he := by
    have := h.behind e he
    omega
  poised _ _ e he := by
    obtain ⟨last, hlast, rfl, hmax⟩ := h.inFlight attempt target arrived rfl
    have hle := h.behind last hlast
    have hmaxe := hmax e he
    by_cases heq : last = k
    · rw [heq, if_pos rfl] at hm
      omega
    · omega
  inFlight _ _ _ hphase := by cases hphase

/-! ## How long a stretch is -/

/-- Different steps below a bound are no more than the bound. -/
theorem length_le_of_lt (h : Stretch r k targets phase steps) (hlt : ∀ e ∈ steps, e < m) :
    targets.length ≤ m := by
  have hnodup : steps.Nodup := h.increasing.imp Nat.ne_of_lt
  have hsub : steps ⊆ List.range m := fun e he => List.mem_range.mpr (hlt e he)
  have hle : steps.length ≤ m := by
    simpa using (List.subperm_of_subset hnodup hsub).length_le
  rw [h.targets, List.length_map]
  exact hle

/-- A stretch up to a place has at most as many attempts as places on the way. -/
theorem length_le (h : Stretch r k targets phase steps) : targets.length ≤ k + 1 :=
  h.length_le_of_lt fun e he => Nat.lt_succ_of_le (h.behind e he)

/-- **Attempts cost advances.** A call that is ready for another attempt has seen an advance for
each attempt so far. -/
theorem length_le_of_poised {attempt : Nat} (h : Stretch r k targets (.poised attempt) steps) :
    targets.length ≤ k :=
  h.length_le_of_lt (h.poised attempt rfl)

end Stretch

/-! ## Along a schedule -/

section Exec

variable {w : World} {n q : Nat} {r : Router}

/-- **An act keeps a call on a stretch.** -/
theorem Stretch.act {k : Nat} {old job : Job} {steps : List Nat}
    (hr : w.router? n = some (r.moved k)) (hold : w.jobs[q]? = some old) (hn : old.router = n)
    (h : Stretch r k (w.targets q) old.call.phase steps) (a : Act)
    (hjob : (w.act a).jobs[q]? = some job) :
    ∃ steps, Stretch r (k + if w.advances n a then 1 else 0) ((w.act a).targets q)
      job.call.phase steps := by
  have hmono : k ≤ k + if w.advances n a then 1 else 0 := Nat.le_add_right _ _
  cases was_of_act hjob with
  | started act_eq router new =>
    have hlt := job_lt hold
    omega
  | kept before unsent =>
    obtain rfl := Option.some.inj (hold.symm.trans before)
    rw [targets_of_unsent unsent]
    exact ⟨steps, h.mono hmono⟩
  | arrived act_eq before delivered job_eq unsent =>
    obtain rfl := Option.some.inj (hold.symm.trans before)
    obtain ⟨attempt, place, hphase, rfl⟩ := Call.deliver?_eq_some delivered
    rw [hphase] at h
    rw [targets_of_unsent unsent, job_eq]
    exact ⟨steps, h.arrive.mono hmono⟩
  | @worked _ r' m act_eq before router piece job_eq sent =>
    obtain rfl := Option.some.inj (hold.symm.trans before)
    obtain rfl : r.moved k = r' := by
      rw [hn, hr] at router
      exact Option.some.inj router
    rw [targets_of_sendings sent, job_eq]
    cases piece with
    | exhausted | withdrawn | interrupted | concluded =>
      refine ⟨steps, ?_⟩
      simpa using (h.ended _).mono hmono
    | sent phase =>
      rw [phase] at h
      exact ⟨_, (h.send _).mono hmono⟩
    | @refused attempt target p phase unfired refusal =>
      refine ⟨steps, ?_⟩
      rw [phase] at h
      simp only [Move.sendings, Call.refusal_sendings, List.map_nil, List.append_nil]
      refine h.refused ?_ _
      -- the refusal is an advance exactly when the pointer is still at the target
      have hx := hearing?_work before router
      rw [unfired, Call.heard?_of_arrived _ phase, Option.map_some, ← act_eq] at hx
      have hadvances : w.advances n a = decide (r.ahead k = target) := by
        rw [advances_of_hearing hx hr]
        show (decide (old.router = n) && Outcome.isRefusal _ && decide _) = _
        rw [refusal, decide_eq_true hn]
        rfl
      rw [hadvances]
      simp

/-- **The attempts of a call go strictly ahead**, from any world in which it is on a stretch. -/
theorem Stretch.exec (hw : w.WellFormed) (hr : w.router? n = some r)
    (h : ∀ job : Job, w.jobs[q]? = some job → job.router = n →
      ∃ steps, Stretch r 0 (w.targets q) job.call.phase steps)
    (acts : List Act) {job : Job} (hjob : (w.exec acts).jobs[q]? = some job)
    (hn : job.router = n) :
    ∃ steps, Stretch r (w.advanceCount n acts) ((w.exec acts).targets q) job.call.phase steps := by
  induction acts using List.reverseRecOn generalizing job with
  | nil => exact h job hjob hn
  | append_singleton acts a ih =>
    have hrouter := lead_exec hr (hw.lead_lt n r hr) acts
    rw [exec_concat] at hjob ⊢
    rw [advanceCount_concat]
    cases hold : (w.exec acts).jobs[q]? with
    | some old =>
      obtain ⟨job', hjob', hsame⟩ := continues_act hold a
      obtain rfl := Option.some.inj (hjob.symm.trans hjob')
      have hnold : old.router = n := hsame.router.symm.trans hn
      obtain ⟨steps, hsteps⟩ := ih hold hnold
      exact hsteps.act hrouter hold hnold a hjob
    | none =>
      -- the act has started the call
      cases was_of_act hjob with
      | started act_eq router new job_eq unsent =>
        have hnil := (hw.exec acts).targets_eq_nil (Nat.le_of_eq new.symm)
        rw [targets_of_unsent unsent, hnil, job_eq]
        exact ⟨[], .nil r _ fun _ _ _ => Phase.noConfusion⟩
      | kept before | arrived _ before | worked _ before =>
        rw [hold] at before
        cases before

/-- **The attempts of a call go strictly ahead**, and never further than the pointer has come. -/
theorem stretch_exec (hw : w.WellFormed) (hr : w.router? n = some r) (hq : w.jobs.length ≤ q)
    (acts : List Act) {job : Job} (hjob : (w.exec acts).jobs[q]? = some job)
    (hn : job.router = n) :
    ∃ steps, Stretch r (w.advanceCount n acts) ((w.exec acts).targets q) job.call.phase steps :=
  Stretch.exec hw hr (fun _ hstart => absurd hstart (not_job hq)) acts hjob hn

end Exec

end World

end ClusterClient
