import ClusterClient.Routing.World

/-!
# Schedules: everything that can happen to a world, one indivisible act after another

A schedule is a list of acts. Each is something from outside (a call is started, a response
arrives, a token fires, a router is cloned or made anew) or one piece of work of one call, so that
a statement about all schedules is a statement about all interleavings of any number of calls.

## The architecture

* **`Act`**, **`World.act`**, **`World.exec`**: one act and a whole schedule. Acts that have
  nothing to do leave the world as it is.
* **`World.along`**: the acts of a schedule, each with the world that it meets. What a schedule
  leaves on record is read off this list.
* **`Call.Piece`** and **`Call.piece_of_move`**: the inversion of `Call.move`. A piece of work takes
  one of six branches; later modules split on these six and never open `move`.
-/

namespace ClusterClient

/-- One indivisible thing that happens to a world. -/
inductive Act where
  | start (id : String) (handle : Handle) (purpose : Purpose) (token : Option String)
    (script : List Planned)
  /-- A response arrives for the attempt that the call at a place has in flight. -/
  | answer (place : Nat) (p : Planned)
  | fire (token : String)
  | share (handle : Handle)
  | separate (handle : Handle)
  /-- One piece of work of the call at a place. -/
  | work (place : Nat)

/-- An act is work or it is not; most facts about acts split here. -/
theorem Act.work_or (a : Act) : (∃ q, a = .work q) ∨ ∀ q, a ≠ .work q := by
  cases a with
  | work q => exact .inl ⟨q, rfl⟩
  | start | answer | fire | share | separate => exact .inr fun _ => Act.noConfusion

namespace World

/-- Delivers a response to the call at a place, if it waits for one. -/
def answer (place : Nat) (p : Planned) (w : World) : World :=
  match w.jobs[place]? with
  | some job =>
    match job.call.deliver? p with
    | some call => { w with jobs := w.jobs.set place { job with call } }
    | none => w
  | none => w

/-- What an act does. -/
def act (w : World) : Act → World
  | .start id handle purpose token script => w.start id handle purpose token script
  | .answer place p => w.answer place p
  | .fire token => w.fire token
  | .share handle => w.share handle
  | .separate handle => w.separate handle
  | .work place => w.work place

/-- The world after a schedule. -/
def exec (w : World) (acts : List Act) : World :=
  acts.foldl act w

/-- The acts of a schedule, each with the world that it meets. -/
def along (w : World) : List Act → List (World × Act)
  | [] => []
  | a :: as => (w, a) :: along (w.act a) as

@[simp] theorem exec_nil (w : World) : w.exec [] = w := rfl

@[simp] theorem exec_cons (w : World) (a : Act) (as : List Act) :
    w.exec (a :: as) = (w.act a).exec as := rfl

theorem exec_append (w : World) (as bs : List Act) :
    w.exec (as ++ bs) = (w.exec as).exec bs := by
  rw [exec, List.foldl_append]; rfl

theorem exec_concat (w : World) (as : List Act) (a : Act) :
    w.exec (as ++ [a]) = (w.exec as).act a := by
  rw [exec_append]; rfl

@[simp] theorem along_nil (w : World) : w.along [] = [] := rfl

/-- The moments of a schedule, part by part. -/
theorem along_append (w : World) (as bs : List Act) :
    w.along (as ++ bs) = w.along as ++ (w.exec as).along bs := by
  induction as generalizing w with
  | nil => rfl
  | cons a as ih => simp only [List.cons_append, along, exec_cons, ih]

theorem along_concat (w : World) (as : List Act) (a : Act) :
    w.along (as ++ [a]) = w.along as ++ [(w.exec as, a)] := by
  rw [along_append]; rfl

/-- **The induction over schedules.** What holds at the start and is kept by every act holds
after every schedule. -/
theorem exec_induction {P : World → Prop} (step : ∀ w a, P w → P (w.act a)) {w : World}
    (h : P w) (acts : List Act) : P (w.exec acts) := by
  induction acts generalizing w with
  | nil => exact h
  | cons a as ih => exact ih (step w a h)

/-- **The moment at which something becomes true**, if it does so along a schedule. -/
theorem exists_first {P : World → Prop} {w : World} {acts : List Act} (hbefore : ¬ P w)
    (h : P (w.exec acts)) :
    ∃ before a after, acts = before ++ a :: after ∧ ¬ P (w.exec before) ∧
      P ((w.exec before).act a) := by
  induction acts generalizing w with
  | nil => exact absurd h hbefore
  | cons a as ih =>
    by_cases ha : P (w.act a)
    · exact ⟨[], a, as, rfl, hbefore, ha⟩
    · obtain ⟨before, b, after, rfl, hnot, hthen⟩ := ih ha h
      exact ⟨a :: before, b, after, rfl, hnot, hthen⟩

end World

/-! ## The six branches of a piece of work -/

/-- What an outcome says is that the next node should be tried. -/
def Outcome.isRefusal (o : Outcome) : Bool :=
  (Verdict.ofOutcome o).isRetryable

namespace Call

/-- The outcome of an attempt that was sent to a place, once its response is there. -/
def outcomeAt (router : Router) (place : Nat) (p : Planned) : Outcome :=
  p.response.outcome (router.roster.endpoint place)

/-- A piece of work of a call, by the branch that it takes. -/
inductive Piece (c : Call) (router : Router) (cancelled : Bool) : Move → Prop where
  /-- No attempt is left. -/
  | exhausted {attempt : Nat} (phase : c.phase = .poised attempt)
      (spent : router.roster.budget < attempt) :
      Piece c router cancelled
        (c.finish router [.noted (.exhausted router.roster.budget router.roster.size)]
          (.error (.clusterUnreachable router.roster.budget router.roster.size)))
  /-- The caller has given up before the attempt. -/
  | withdrawn {attempt : Nat} (phase : c.phase = .poised attempt)
      (left : attempt ≤ router.roster.budget) (fired : cancelled = true) :
      Piece c router cancelled (c.finish router [] (.error (.cancelled (attempt - 1))))
  | sent {attempt : Nat} (phase : c.phase = .poised attempt)
      (left : attempt ≤ router.roster.budget) (unfired : cancelled = false) :
      Piece c router cancelled (c.send router attempt)
  /-- The caller has given up while the attempt was in flight. -/
  | interrupted {attempt place : Nat} {arrived : Option Planned}
      (phase : c.phase = .inFlight attempt place arrived) (fired : cancelled = true) :
      Piece c router cancelled (c.finish router [] (.error (.cancelled (attempt - 1))))
  | refused {attempt place : Nat} {p : Planned}
      (phase : c.phase = .inFlight attempt place (some p)) (unfired : cancelled = false)
      (refusal : (outcomeAt router place p).isRefusal = true) :
      Piece c router cancelled
        { call := { c with phase := .poised (attempt + 1) }
          router := router.leave place
          fires := decide (p.trigger = some .onReply)
          events := Call.refusal (router.roster.endpoint place)
            (Verdict.ofOutcome (outcomeAt router place p)) }
  /-- The outcome is final. -/
  | concluded {attempt place : Nat} {p : Planned}
      (phase : c.phase = .inFlight attempt place (some p)) (unfired : cancelled = false)
      (final : (outcomeAt router place p).isRefusal = false) :
      Piece c router cancelled
        { c.finish router [] ((outcomeAt router place p).mapError Fault.transport) with
          fires := decide (p.trigger = some .onReply) }

/-- **The inversion of `move`.** -/
theorem piece_of_move {c : Call} {router : Router} {cancelled : Bool} {m : Move}
    (h : c.move router cancelled = some m) : Piece c router cancelled m := by
  unfold move at h
  cases hp : c.phase with
  | poised attempt =>
    simp only [hp] at h
    split at h
    · next spent =>
      cases h
      exact .exhausted hp spent
    · next left =>
      split at h
      · next fired =>
        cases h
        exact .withdrawn hp (by omega) fired
      · next unfired =>
        cases h
        exact .sent hp (by omega) (by simpa using unfired)
  | inFlight attempt place arrived =>
    simp only [hp] at h
    split at h
    · next fired =>
      cases h
      exact .interrupted hp fired
    · next unfired =>
      -- what has arrived decides: a refusal, or the end
      have unfired : cancelled = false := by simpa using unfired
      obtain ⟨p, rfl, rfl⟩ := Option.map_eq_some_iff.mp h
      cases ho : (outcomeAt router place p).isRefusal with
      | true =>
        have := Piece.refused hp unfired ho
        unfold receive
        rw [if_pos (by simpa [Outcome.isRefusal, outcomeAt] using ho)]
        exact this
      | false =>
        have := Piece.concluded hp unfired ho
        unfold receive
        rw [if_neg (by simpa [Outcome.isRefusal, outcomeAt] using ho)]
        exact this
  | ended result =>
    simp only [hp] at h
    cases h

/-- A call without attempts left gives up and says how many there were. -/
theorem move_of_spent {c : Call} {attempt : Nat} {router : Router}
    (hp : c.phase = .poised attempt) (h : router.roster.budget < attempt) (cancelled : Bool) :
    c.move router cancelled =
      some (c.finish router [.noted (.exhausted router.roster.budget router.roster.size)]
        (.error (.clusterUnreachable router.roster.budget router.roster.size))) := by
  simp [move, hp, h]

/-- A call with attempts left sends one, unless it is cancelled. -/
theorem move_of_poised {c : Call} {attempt : Nat} {router : Router}
    (hp : c.phase = .poised attempt) (h : attempt ≤ router.roster.budget) :
    c.move router false = some (c.send router attempt) := by
  simp [move, hp, Nat.not_lt.mpr h]

/-- What has arrived is received, unless the call is cancelled. -/
theorem move_of_arrived {c : Call} {attempt place : Nat} {p : Planned}
    (hp : c.phase = .inFlight attempt place (some p)) (router : Router) :
    c.move router false = some (c.receive router attempt place p) := by
  simp [move, hp]

/-- What becomes of a call that takes a response. -/
theorem receive_call (c : Call) (r : Router) (attempt place : Nat) (p : Planned) :
    (c.receive r attempt place p).call =
      { c with
        phase := if (outcomeAt r place p).isRefusal then .poised (attempt + 1)
          else .ended ((outcomeAt r place p).mapError Fault.transport) } := by
  unfold receive
  cases ho : (outcomeAt r place p).isRefusal with
  | true =>
    rw [if_pos (by simpa [Outcome.isRefusal, outcomeAt] using ho)]
    rfl
  | false =>
    rw [if_neg (by simpa [Outcome.isRefusal, outcomeAt] using ho)]
    rfl

/-- An attempt in flight that is cancelled does not count. -/
theorem move_of_cancelled {c : Call} {attempt place : Nat} {arrived : Option Planned}
    (hp : c.phase = .inFlight attempt place arrived) (router : Router) :
    c.move router true = some (c.finish router [] (.error (.cancelled (attempt - 1)))) := by
  simp [move, hp]

/-- A call that is about to send never waits. -/
theorem move_isSome_of_poised {c : Call} {attempt : Nat} (hp : c.phase = .poised attempt)
    (router : Router) (cancelled : Bool) : (c.move router cancelled).isSome := by
  unfold move
  simp only [hp]
  split
  · rfl
  · split <;> rfl

/-- Nor does a call for which something has arrived. -/
theorem move_isSome_of_arrived {c : Call} {attempt place : Nat} {p : Planned}
    (hp : c.phase = .inFlight attempt place (some p)) (router : Router) (cancelled : Bool) :
    (c.move router cancelled).isSome := by
  unfold move
  simp only [hp]
  split <;> rfl

end Call

end ClusterClient
