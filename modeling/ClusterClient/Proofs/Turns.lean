import ClusterClient.Proofs.WellFormed
import ClusterClient.Routing.Session

/-!
# Turns: calls that give way only when they wait

A schedule may interrupt a call between any two pieces of work. Callers that run on one thread give
way only where they wait for a response: once it is a call's turn, it works until it has ended or
waits (`World.run`). Such schedules are schedules all the same, only coarser, so that whatever holds
of all schedules holds of them; and the steps of a session are such schedules.

* **`World.turn`**, **`World.turns`**: the acts of a schedule, with turns for pieces of work.
* **`World.work?_run`**: the bound that `run` computes is enough. After its turn a call has nothing
  left to do.
* **`World.turns_eq_exec`**, **`World.take_eq_turns`**: turns are pieces of work in a row, and a
  step of a session is a schedule of turns.
-/

namespace ClusterClient

/-- **A piece of work brings a call nearer to its end.** -/
theorem Call.Piece.worksLeft_lt {c : Call} {r r' : Router} {cancelled : Bool} {m : Move}
    (h : Call.Piece c r cancelled m) (hc : c.Fits r.roster) (hroster : r'.roster = r.roster) :
    m.call.worksLeft r' < c.worksLeft r := by
  unfold Call.Fits at hc
  -- an attempt counts twice before it is sent and once while it is in flight, and the last piece
  -- of work once more
  unfold Call.worksLeft
  rw [hroster]
  cases h with
  | exhausted phase | withdrawn phase =>
    simp only [phase, finish_phase]
    omega
  | sent phase left =>
    simp only [phase, send_phase]
    omega
  | interrupted phase | concluded phase =>
    simp only [phase, finish_phase] at hc ⊢
    omega
  | refused phase =>
    simp only [phase] at hc ⊢
    omega

namespace World

/-- Every piece of work leaves less to do, so a turn ends. -/
theorem worksLeft_lt_of_work? {w w' : World} (hw : w.WellFormed) {q : Nat}
    (h : w.work? q = some w') : w'.worksLeft q < w.worksLeft q := by
  obtain ⟨job, r, m, hjob, hr, hm, rfl⟩ := work?_eq_some_iff.mp h
  obtain ⟨r', hr', hfits⟩ := hw.fits q job hjob
  obtain rfl : r' = r := Option.some.inj (hr'.symm.trans hr)
  obtain ⟨r'', hr'', hroster⟩ := router?_act_roster hr (.work q)
  rw [act_work_of_some h] at hr''
  have hafter : (w.after q job m).jobs[q]? = some { job with call := m.call } :=
    jobs_after_self hjob m
  simp only [worksLeft, hafter, hjob, hr, hr'', Option.elim_some]
  exact (Call.piece_of_move hm).worksLeft_lt hfits hroster

/-- Working on and on is a schedule of work. -/
theorem workOn_eq_exec (q fuel : Nat) (w : World) :
    ∃ k, w.workOn q fuel = w.exec (List.replicate k (.work q)) := by
  induction fuel generalizing w with
  | zero => exact ⟨0, rfl⟩
  | succ fuel ih =>
    unfold workOn
    cases h : w.work? q with
    | none => exact ⟨0, rfl⟩
    | some w' =>
      obtain ⟨k, hk⟩ := ih w'
      refine ⟨k + 1, ?_⟩
      rw [List.replicate_succ, exec_cons, act_work_of_some h]
      exact hk

/-- With fuel for the work that is left, nothing is left. -/
theorem work?_workOn {q fuel : Nat} {w : World} (hw : w.WellFormed)
    (hfuel : w.worksLeft q ≤ fuel) : (w.workOn q fuel).work? q = none := by
  induction fuel generalizing w with
  | zero =>
    unfold workOn
    cases h : w.work? q with
    | none => rfl
    | some w' =>
      have := worksLeft_lt_of_work? hw h
      omega
  | succ fuel ih =>
    unfold workOn
    cases h : w.work? q with
    | none => exact h
    | some w' =>
      have hlt := worksLeft_lt_of_work? hw h
      have hw' : w'.WellFormed := act_work_of_some h ▸ hw.act (.work q)
      exact ih hw' (by omega)

/-- **After its turn a call has nothing left to do**: it has ended or waits for a response. -/
theorem work?_run {w : World} (hw : w.WellFormed) (q : Nat) : (w.run q).work? q = none :=
  work?_workOn hw (Nat.le_refl _)

/-- So is the work of one turn. -/
theorem run_eq_exec (w : World) (q : Nat) :
    ∃ k, w.run q = w.exec (List.replicate k (.work q)) :=
  workOn_eq_exec q _ w

/-- What an act does when a piece of work goes on until the call ends or waits. -/
def turn (w : World) : Act → World
  | .work q => w.run q
  | a => w.act a

/-- The world after a schedule of turns. -/
def turns (w : World) (acts : List Act) : World :=
  acts.foldl turn w

@[simp] theorem turns_nil (w : World) : w.turns [] = w := rfl

theorem turns_cons (w : World) (a : Act) (as : List Act) :
    w.turns (a :: as) = (w.turn a).turns as := rfl

theorem turns_append (w : World) (as bs : List Act) :
    w.turns (as ++ bs) = (w.turns as).turns bs := by
  rw [turns, List.foldl_append]; rfl

theorem turn_of_ne_work {a : Act} (ha : ∀ q, a ≠ .work q) (w : World) : w.turn a = w.act a := by
  cases a with
  | work q => exact absurd rfl (ha q)
  | _ => rfl

/-- Every turn is a schedule. -/
theorem turn_eq_exec (w : World) (a : Act) : ∃ as, w.turn a = w.exec as := by
  rcases a.work_or with ⟨q, rfl⟩ | hne
  · obtain ⟨k, hk⟩ := run_eq_exec w q
    exact ⟨_, hk⟩
  · exact ⟨[a], turn_of_ne_work hne w⟩

/-- **A schedule of turns is a schedule.** -/
theorem turns_eq_exec (w : World) (acts : List Act) : ∃ as, w.turns acts = w.exec as := by
  induction acts generalizing w with
  | nil => exact ⟨[], rfl⟩
  | cons a acts ih =>
    obtain ⟨as, has⟩ := turn_eq_exec w a
    obtain ⟨bs, hbs⟩ := ih (w.turn a)
    refine ⟨as ++ bs, ?_⟩
    rw [turns_cons, hbs, has, exec_append]

/-- Turns keep a world well formed. -/
theorem WellFormed.turns {w : World} (h : w.WellFormed) (acts : List Act) :
    (w.turns acts).WellFormed := by
  obtain ⟨as, has⟩ := turns_eq_exec w acts
  rw [has]
  exact h.exec as

/-! ## Sessions -/

/-- Letting some calls work is taking their turns. -/
theorem foldl_run_eq_turns (w : World) (qs : List Nat) :
    qs.foldl run w = w.turns (qs.map .work) := by
  rw [turns, List.foldl_map]; rfl

/-- So is letting all of them work. -/
theorem settle_eq_turns (w : World) : ∃ acts, w.settle = w.turns acts := by
  have sweeps : ∀ w : World, w.sweep = w.turns ((List.range w.jobs.length).map .work) :=
    fun w => foldl_run_eq_turns w _
  exact ⟨_, by rw [settle, sweeps w, sweeps (w.turns _), ← turns_append]⟩

/-- A delivery is an answer to the call of that name. -/
theorem deliver?_eq_answer {w w' : World} {id : String} {p : Planned}
    (h : w.deliver? id p = some w') : ∃ q, w' = w.answer q p := by
  simp only [deliver?, Option.bind_eq_bind, Option.bind_eq_some_iff, Option.pure_def,
    Option.some.injEq] at h
  obtain ⟨q, -, job, hjob, call, hcall, rfl⟩ := h
  exact ⟨q, by simp only [answer, hjob, hcall]⟩

/-- The effect of a step is nothing, or one act that is no work. -/
theorem effect?_eq_act {w w' : World} {s : Step} (h : s.effect? w = some w') :
    w' = w ∨ ∃ a, (∀ q, a ≠ .work q) ∧ w' = w.act a := by
  cases s with
  | call id client purpose token script =>
    obtain ⟨handle, -, rfl⟩ := Option.map_eq_some_iff.mp h
    exact .inr ⟨.start id handle purpose token script, fun _ => Act.noConfusion, rfl⟩
  | reply id p =>
    obtain ⟨q, rfl⟩ := deliver?_eq_answer h
    exact .inr ⟨.answer q p, fun _ => Act.noConfusion, rfl⟩
  | cancel token =>
    cases h
    exact .inr ⟨.fire token, fun _ => Act.noConfusion, rfl⟩
  | share client =>
    obtain ⟨handle, -, rfl⟩ := Option.map_eq_some_iff.mp h
    exact .inr ⟨.share handle, fun _ => Act.noConfusion, rfl⟩
  | separate =>
    obtain ⟨handle, -, rfl⟩ := Option.map_eq_some_iff.mp h
    exact .inr ⟨.separate handle, fun _ => Act.noConfusion, rfl⟩
  | look =>
    cases h
    exact .inl rfl

/-- **A step of a session is a schedule of turns.** -/
theorem take_eq_turns (w : World) (s : Step) : ∃ acts, (w.take s).world = w.turns acts := by
  have settled : ∀ w' : World, (w' = w ∨ ∃ a, (∀ q, a ≠ .work q) ∧ w' = w.act a) →
      ∃ acts, w'.settle = w.turns acts := by
    intro w' hw'
    obtain ⟨acts, hacts⟩ := settle_eq_turns w'
    rcases hw' with rfl | ⟨a, ha, rfl⟩
    · exact ⟨acts, hacts⟩
    · exact ⟨a :: acts, by rw [turns_cons, turn_of_ne_work ha, hacts]⟩
  unfold take
  cases h : s.effect? w with
  | none => exact settled w (.inl rfl)
  | some w' => exact settled w' (effect?_eq_act h)

end World

end ClusterClient
