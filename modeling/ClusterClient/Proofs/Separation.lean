import Mathlib.Data.List.Destutter
import ClusterClient.Proofs.Turns

/-!
# Clones are interchangeable, separate routers independent

Which client of a router a call is made through is seen nowhere, and what is done on one router is
not seen from another. The second is a statement about two runs: the calls of all other routers are
deleted from a schedule, so that the places of the calls that remain move up, and the tokens that
the deleted calls would have fired are fired from outside at the same points. What is left is a
schedule, and it shows the same calls, reports and pointer.

## The architecture

* **`World.without`**: a schedule without the calls of other routers.
* **`World.Shows`**: the simulation. One world is, for the calls of one router, what another one is.
* **`World.Shows.act`**: the step, one lemma for each kind of act.
* **`World.shows_exec`**, **`World.leads_without`**: the run, and the pointer along it.
* **`World.Clones`**, **`World.Interchange`**: clients of one router, and sessions that differ in
  the clients that calls are made through.
-/

namespace ClusterClient

/-! ## Places in a filtered list -/

section Filter

variable {α : Type} {p : α → Bool} {l : List α} {i : Nat} {x : α}

/-- A filtered list, parted at a place of the list. -/
theorem filter_eq_parts (hx : l[i]? = some x) :
    l.filter p = (l.take i).filter p ++ (x :: l.drop (i + 1)).filter p := by
  obtain ⟨hi, rfl⟩ := List.getElem?_eq_some_iff.mp hx
  rw [← List.filter_append, List.getElem_cons_drop hi, List.take_append_drop]

/-- Setting an item and then filtering, by the parts before and after it. -/
theorem filter_set_eq_parts (hx : l[i]? = some x) (y : α) :
    (l.set i y).filter p = (l.take i).filter p ++ (y :: l.drop (i + 1)).filter p := by
  obtain ⟨hi, -⟩ := List.getElem?_eq_some_iff.mp hx
  rw [List.set_eq_take_append_cons_drop, if_pos hi, List.filter_append]

/-- An item that is kept stands behind those kept before it. -/
theorem getElem?_filter_countP (hx : l[i]? = some x) (hp : p x = true) :
    (l.filter p)[(l.take i).countP p]? = some x := by
  rw [filter_eq_parts hx, List.filter_cons_of_pos hp, List.countP_eq_length_filter,
    List.getElem?_append_right (Nat.le_refl _), Nat.sub_self, List.getElem?_cons_zero]

/-- Setting an item that is kept is setting it among the kept ones. -/
theorem filter_set_of_pos (hx : l[i]? = some x) (hp : p x = true) {y : α} (hy : p y = true) :
    (l.set i y).filter p = (l.filter p).set ((l.take i).countP p) y := by
  rw [filter_eq_parts hx, filter_set_eq_parts hx, List.filter_cons_of_pos hp,
    List.filter_cons_of_pos hy, List.countP_eq_length_filter,
    List.set_append_right _ _ (Nat.le_refl _), Nat.sub_self, List.set_cons_zero]

/-- Setting an item that is not kept changes none of the kept ones. -/
theorem filter_set_of_neg (hx : l[i]? = some x) (hp : p x = false) {y : α} (hy : p y = false) :
    (l.set i y).filter p = l.filter p := by
  rw [filter_eq_parts hx, filter_set_eq_parts hx, List.filter_cons_of_neg (by simp [hy]),
    List.filter_cons_of_neg (by simp [hp])]

theorem set_getElem?_self (hx : l[i]? = some x) : l.set i x = l := by
  obtain ⟨hi, rfl⟩ := List.getElem?_eq_some_iff.mp hx
  exact List.set_getElem_self hi

end Filter

/-- No move changes the roster of its router. -/
theorem Call.Piece.roster {c : Call} {r : Router} {cancelled : Bool} {m : Move}
    (h : Call.Piece c r cancelled m) : m.router.roster = r.roster := by
  rw [h.router_eq]
  split
  · split
    · exact Router.leave_roster r _
    · rfl
  · rfl

namespace World

variable {n : Nat}

/-! ## A schedule without the calls of other routers -/

/-- The routers of the calls. -/
def owners (w : World) : List Nat :=
  w.jobs.map Job.router

/-- The place of a call among those of its router. -/
def rank (w : World) (n place : Nat) : Nat :=
  (w.owners.take place).count n

/-- What the calls of a router have reported, with their places among themselves. -/
def historyOf (w : World) (n : Nat) : List Report :=
  w.history.filterMap fun report =>
    if w.owners[report.place]? = some n then some { report with place := w.rank n report.place }
    else none

/-- The next piece of work of a call, and the call. -/
def move? (w : World) (place : Nat) : Option (Job × Move) := do
  let job ← w.jobs[place]?
  let router ← w.router? job.router
  let move ← job.call.move router (w.isCancelled job.call)
  return (job, move)

/-- The token that the next piece of work of a call fires, if it fires one. -/
def firing? (w : World) (place : Nat) : Option String :=
  (w.move? place).bind fun x => if x.2.fires then x.1.call.token else none

/-- What is left of an act when the calls of other routers are deleted. -/
def keptOf (w : World) (n : Nat) : Act → List Act
  | .start id handle purpose token script =>
    if handle.router = n then [.start id handle purpose token script] else []
  | .answer place p => if w.owners[place]? = some n then [.answer (w.rank n place) p] else []
  | .work place =>
    if w.owners[place]? = some n then [.work (w.rank n place)]
    else ((w.firing? place).map Act.fire).toList
  | a => [a]

/-- The schedule without the calls of other routers: the tokens that these fire are fired from
outside. -/
def without (w : World) (n : Nat) (acts : List Act) : List Act :=
  (w.along acts).flatMap fun x => x.1.keptOf n x.2

theorem without_nil (w : World) (n : Nat) : w.without n [] = [] := rfl

theorem without_cons (w : World) (n : Nat) (a : Act) (as : List Act) :
    w.without n (a :: as) = w.keptOf n a ++ (w.act a).without n as := by
  simp only [without, along, List.flatMap_cons]

theorem without_append (w : World) (n : Nat) (as bs : List Act) :
    w.without n (as ++ bs) = w.without n as ++ (w.exec as).without n bs := by
  simp only [without, along_append, List.flatMap_append]

/-- For the calls of one router, one world is what another one is. -/
structure Shows (n : Nat) (w v : World) : Prop where
  jobs : v.jobs = w.jobs.filter (·.router == n)
  history : v.history = w.historyOf n
  fired : v.fired = w.fired
  handles : v.handles = w.handles
  router : v.router? n = w.router? n
  /-- Pointers of other routers may differ, but not the routers themselves. -/
  rosters : v.routers.map Router.roster = w.routers.map Router.roster

/-- A world without the calls of other routers and what they have reported. -/
def only (n : Nat) (w : World) : World :=
  { w with jobs := w.jobs.filter (·.router == n), history := w.historyOf n }

/-- A world shows what is left of it for one router. -/
theorem shows_only (w : World) (n : Nat) : Shows n w (w.only n) :=
  ⟨rfl, rfl, rfl, rfl, rfl, rfl⟩

/-- Where there are no calls, there are none to leave out. -/
theorem only_of_idle {w : World} (hjobs : w.jobs = []) (hhistory : w.history = []) :
    w.only n = w := by
  obtain ⟨routers, handles, jobs, fired, history⟩ := w
  subst hjobs hhistory
  rfl

/-! ## Look-up -/

theorem owners_eq_some_iff {w : World} {q m : Nat} :
    w.owners[q]? = some m ↔ ∃ job, w.jobs[q]? = some job ∧ job.router = m := by
  simp [owners]

/-- The inversion of the next move: a job, its router and what the call does. -/
theorem move?_eq_some {w : World} {q : Nat} {job : Job} {m : Move} (h : w.move? q = some (job, m)) :
    ∃ r, w.jobs[q]? = some job ∧ w.router? job.router = some r ∧
      job.call.move r (w.isCancelled job.call) = some m := by
  simp only [move?, Option.bind_eq_bind, Option.bind_eq_some_iff, Option.pure_def,
    Option.some.injEq, Prod.mk.injEq] at h
  obtain ⟨_, hjob, r, hr, _, hm, rfl, rfl⟩ := h
  exact ⟨r, hjob, hr, hm⟩

/-- Work is the next move, if there is one. -/
theorem act_work_of_move? {w : World} {q : Nat} {job : Job} {m : Move}
    (h : w.move? q = some (job, m)) : w.act (.work q) = w.after q job m := by
  obtain ⟨r, hjob, hr, hm⟩ := move?_eq_some h
  exact act_work_eq hjob hr hm

/-- Without one it is nothing. -/
theorem act_work_of_move?_eq_none {w : World} {q : Nat} (h : w.move? q = none) :
    w.act (.work q) = w := by
  cases hwork : w.work? q with
  | none => simp [act, World.work, hwork]
  | some w' =>
    obtain ⟨job, r, m, hjob, hr, hm, -⟩ := work?_eq_some_iff.mp hwork
    simp [move?, hjob, hr, hm] at h

/-- The tokens that have fired after a move: the call's own first, if it fires it. -/
theorem firedBy_eq (w : World) (c : Call) (fires : Bool) :
    w.firedBy c fires = (if fires then c.token else none).toList ++ w.fired := by
  unfold firedBy
  cases c.token <;> cases fires <;> rfl

theorem owners_of_job {w : World} {q : Nat} {job : Job} (hjob : w.jobs[q]? = some job) :
    w.owners[q]? = some job.router :=
  owners_eq_some_iff.mpr ⟨job, hjob, rfl⟩

/-- The rank of a call is the number of calls of its router before it. -/
theorem rank_eq_countP (w : World) (n q : Nat) :
    w.rank n q = (w.jobs.take q).countP (·.router == n) := by
  rw [rank, owners, ← List.map_take, List.count, List.countP_map]
  rfl

/-- The history of a router depends on the owners and the history alone. -/
theorem historyOf_congr {w w' : World} (howners : w'.owners = w.owners)
    (hhistory : w'.history = w.history) : w'.historyOf n = w.historyOf n := by
  simp only [historyOf, rank, howners, hhistory]

/-- A job that is replaced keeps its router. -/
theorem owners_set {w : World} {q : Nat} {job job' : Job} (hjob : w.jobs[q]? = some job)
    (hrouter : job'.router = job.router) :
    owners { w with jobs := w.jobs.set q job' } = w.owners := by
  rw [owners, List.map_set, hrouter]
  exact set_getElem?_self (owners_of_job hjob)

theorem owners_concat (w : World) (job : Job) :
    owners { w with jobs := w.jobs ++ [job] } = w.owners ++ [job.router] := by
  simp [owners]

/-- Reports about calls that exist are renumbered alike when a call is added. -/
theorem historyOf_of_concat {w w' : World} (hw : w.WellFormed) {m : Nat}
    (howners : w'.owners = w.owners ++ [m]) (hhistory : w'.history = w.history) :
    w'.historyOf n = w.historyOf n := by
  simp only [historyOf, hhistory, rank, howners]
  refine List.filterMap_congr fun report hmem => ?_
  -- a report is about a call that was there
  have hlt : report.place < w.owners.length := by simpa [owners] using hw.reported report hmem
  rw [List.getElem?_append_left hlt, List.take_append_of_le_length (Nat.le_of_lt hlt)]

/-- What a call reports is, for its own router, reported at its rank. -/
theorem historyOf_after {w : World} {q : Nat} {job : Job} (hjob : w.jobs[q]? = some job)
    (m : Move) : (w.after q job m).historyOf n = w.historyOf n ++
      if job.router = n then m.events.map (⟨w.rank n q, job.id, ·⟩) else [] := by
  have howners : (w.after q job m).owners = w.owners := owners_set hjob rfl
  simp only [historyOf, rank, howners]
  simp only [after, List.filterMap_append, List.filterMap_map, Function.comp_def,
    owners_of_job hjob, Option.some.injEq]
  congr 1
  split <;> simp

namespace Shows

variable {w v : World}

/-- A call is cancelled in both worlds or in neither. -/
theorem isCancelled (h : Shows n w v) (c : Call) : v.isCancelled c = w.isCancelled c := by
  simp only [World.isCancelled, h.fired]

theorem firedBy (h : Shows n w v) (c : Call) (fires : Bool) :
    v.firedBy c fires = w.firedBy c fires := by
  simp only [World.firedBy, h.fired]

/-- A call of the router, at its rank. -/
theorem job (h : Shows n w v) {q : Nat} {job : Job} (hjob : w.jobs[q]? = some job)
    (hn : job.router = n) : v.jobs[w.rank n q]? = some job := by
  rw [h.jobs, rank_eq_countP]
  exact getElem?_filter_countP hjob (by simp [hn])

/-- The router with a number exists in both worlds, with one roster, or in neither. -/
theorem router?_cases (h : Shows n w v) (m : Nat) :
    (w.router? m = none ∧ v.router? m = none) ∨
      ∃ r r', w.router? m = some r ∧ v.router? m = some r' ∧ r'.roster = r.roster := by
  have hroster : (v.router? m).map Router.roster = (w.router? m).map Router.roster := by
    simp only [router?, ← List.getElem?_map, h.rosters]
  cases hw : w.router? m with
  | none =>
    rw [hw] at hroster
    exact .inl ⟨rfl, Option.map_eq_none_iff.mp hroster⟩
  | some r =>
    rw [hw] at hroster
    obtain ⟨r', hr', hsame⟩ := Option.map_eq_some_iff.mp hroster
    exact .inr ⟨r, r', rfl, hr', hsame⟩

/-! ### The step, by what is done -/

/-- A call of the router is added to both worlds. -/
theorem add (h : Shows n w v) (hw : w.WellFormed) {job : Job} (hn : job.router = n) :
    Shows n { w with jobs := w.jobs ++ [job] } { v with jobs := v.jobs ++ [job] } where
  jobs := by
    rw [List.filter_append, ← h.jobs]
    simp [hn]
  history := h.history.trans (historyOf_of_concat hw (owners_concat w job) rfl).symm
  fired := h.fired
  handles := h.handles
  router := h.router
  rosters := h.rosters

/-- A call of another router is added to one of them only. -/
theorem add_of_ne (h : Shows n w v) (hw : w.WellFormed) {job : Job} (hn : job.router ≠ n) :
    Shows n { w with jobs := w.jobs ++ [job] } v where
  jobs := by
    rw [List.filter_append, ← h.jobs]
    simp [hn]
  history := h.history.trans (historyOf_of_concat hw (owners_concat w job) rfl).symm
  fired := h.fired
  handles := h.handles
  router := h.router
  rosters := h.rosters

/-- A call is started in both worlds, the same one, or in neither. -/
theorem start_cases (h : Shows n w v) (id : String) (handle : Handle) (purpose : Purpose)
    (token : Option String) (script : List Planned) :
    (w.start id handle purpose token script = w ∧ v.start id handle purpose token script = v) ∨
      ∃ job : Job, job.router = handle.router ∧
        w.start id handle purpose token script = { w with jobs := w.jobs ++ [job] } ∧
        v.start id handle purpose token script = { v with jobs := v.jobs ++ [job] } := by
  -- a router that is in neither world, or has one roster in both
  rcases h.router?_cases handle.router with ⟨hr, hr'⟩ | ⟨r, r', hr, hr', hroster⟩
  · exact .inl ⟨by simp [World.start, routerOf?, hr], by simp [World.start, routerOf?, hr']⟩
  · let request := r.roster.request (purpose.draft handle.stream r.roster.tenant)
    refine .inr ⟨⟨id, handle.router, purpose, { request, token, script }⟩, rfl, ?_, ?_⟩
    · simp [World.start, routerOf?, hr, request]
    · simp [World.start, routerOf?, hr', hroster, request]

/-- **A start** keeps what is shown, by whose router it is. -/
theorem start (h : Shows n w v) (hw : w.WellFormed) (id : String) (handle : Handle)
    (purpose : Purpose) (token : Option String) (script : List Planned) :
    Shows n (w.act (.start id handle purpose token script))
      (v.exec (w.keptOf n (.start id handle purpose token script))) := by
  simp only [keptOf, act]
  -- the call is added to both worlds if it goes through the router, else to the first only
  rcases h.start_cases id handle purpose token script with ⟨hact, hact'⟩ | ⟨job, hn, hact, hact'⟩
  · rw [hact]
    split
    · rw [exec_cons, act, hact']
      exact h
    · exact h
  · rw [hact]
    split
    · next hhandle =>
      rw [exec_cons, act, hact']
      exact h.add hw (hn.trans hhandle)
    · next hhandle => exact h.add_of_ne hw (by rw [hn]; exact hhandle)

/-- A call of the router changes. -/
theorem change (h : Shows n w v) {q : Nat} {job : Job} (hjob : w.jobs[q]? = some job)
    (hn : job.router = n) (job' : Job) (hrouter : job'.router = job.router) :
    Shows n { w with jobs := w.jobs.set q job' }
      { v with jobs := v.jobs.set (w.rank n q) job' } where
  jobs := by
    rw [h.jobs, rank_eq_countP]
    exact (filter_set_of_pos hjob (by simp [hn]) (by simp [hrouter, hn])).symm
  history := h.history.trans (historyOf_congr (owners_set hjob hrouter) rfl).symm
  fired := h.fired
  handles := h.handles
  router := h.router
  rosters := h.rosters

/-- A call of another router changes. -/
theorem change_of_ne (h : Shows n w v) {q : Nat} {job : Job} (hjob : w.jobs[q]? = some job)
    (hn : job.router ≠ n) (job' : Job) (hrouter : job'.router = job.router) :
    Shows n { w with jobs := w.jobs.set q job' } v where
  jobs := by
    rw [h.jobs]
    exact (filter_set_of_neg hjob (by simp [hn]) (by simp [hrouter, hn])).symm
  history := h.history.trans (historyOf_congr (owners_set hjob hrouter) rfl).symm
  fired := h.fired
  handles := h.handles
  router := h.router
  rosters := h.rosters

/-- **An answer** goes to a call of the router, at its rank, or to one that is left out. -/
theorem answer (h : Shows n w v) (q : Nat) (p : Planned) :
    Shows n (w.act (.answer q p)) (v.exec (w.keptOf n (.answer q p))) := by
  simp only [keptOf, act, World.answer]
  cases hjob : w.jobs[q]? with
  | none => simpa [owners, hjob] using h
  | some job =>
    simp only [owners_of_job hjob, Option.some.injEq]
    by_cases hn : job.router = n
    · -- the answer reaches the same call, at its rank
      rw [if_pos hn, exec_cons, exec_nil, act, World.answer]
      simp only [h.job hjob hn]
      cases job.call.deliver? p with
      | none => exact h
      | some call => exact h.change hjob hn _ rfl
    · rw [if_neg hn, exec_nil]
      cases job.call.deliver? p with
      | none => exact h
      | some call => exact h.change_of_ne hjob hn _ rfl

theorem fire (h : Shows n w v) (token : String) : Shows n (w.fire token) (v.fire token) :=
  ⟨h.jobs, h.history, congrArg (token :: ·) h.fired, h.handles, h.router, h.rosters⟩

theorem share (h : Shows n w v) (handle : Handle) : Shows n (w.share handle) (v.share handle) :=
  ⟨h.jobs, h.history, h.fired, congrArg (· ++ [handle]) h.handles, h.router, h.rosters⟩

/-- A client with a router of its own is made in both worlds. -/
theorem separate (h : Shows n w v) (handle : Handle) :
    Shows n (w.separate handle) (v.separate handle) := by
  unfold World.separate
  rcases h.router?_cases handle.router with ⟨hr, hr'⟩ | ⟨r, r', hr, hr', hroster⟩
  · simp only [routerOf?, hr, hr']
    exact h
  · have hlength : v.routers.length = w.routers.length := by
      simpa using congrArg List.length h.rosters
    simp only [routerOf?, hr, hr', hroster, hlength]
    refine ⟨h.jobs, h.history, h.fired, by rw [h.handles], ?_, by simp [h.rosters]⟩
    -- the new router is past all others in both worlds
    have hrouter := h.router
    simp only [router?, List.getElem?_append, hlength] at hrouter ⊢
    split
    · exact hrouter
    · rfl

/-- A piece of work of a call of the router: the same piece in both worlds. -/
theorem after (h : Shows n w v) {q : Nat} {job : Job} {r : Router} {m : Move}
    (hjob : w.jobs[q]? = some job) (hn : job.router = n) (hr : w.router? n = some r) :
    Shows n (w.after q job m) (v.after (w.rank n q) job m) := by
  have hlt : n < w.routers.length := router?_lt hr
  have hlt' : n < v.routers.length := router?_lt (h.router.trans hr)
  subst hn
  refine ⟨(h.change hjob rfl { job with call := m.call } rfl).jobs, ?_,
    h.firedBy job.call m.fires, h.handles, ?_, ?_⟩
  · rw [historyOf_after hjob, if_pos rfl, ← h.history]
    rfl
  · simp [World.after, router?, hlt, hlt']
  · simp only [World.after, List.map_set, h.rosters]

/-- A piece of work of a call of another router: only the token that it fires is seen. -/
theorem after_of_ne (h : Shows n w v) {q : Nat} {job : Job} {r : Router} {m : Move}
    (hjob : w.jobs[q]? = some job) (hn : job.router ≠ n) (hr : w.router? job.router = some r)
    (hroster : m.router.roster = r.roster) :
    Shows n (w.after q job m) { v with fired := w.firedBy job.call m.fires } := by
  refine ⟨(h.change_of_ne hjob hn { job with call := m.call } rfl).jobs, ?_, rfl, h.handles, ?_, ?_⟩
  · rw [historyOf_after hjob, if_neg hn, List.append_nil]
    exact h.history
  · simp only [World.after, router?, List.getElem?_set_ne hn]
    exact h.router
  · -- the other router may have moved, but its roster is what it was
    have hwritten : (w.routers.map Router.roster)[job.router]? = some m.router.roster := by
      rw [List.getElem?_map, hroster]
      exact congrArg (Option.map Router.roster) hr
    simp only [World.after, List.map_set, set_getElem?_self hwritten]
    exact h.rosters

/-- A call of the router has the same next move in both worlds. -/
theorem move?_rank (h : Shows n w v) {q : Nat} (hq : w.owners[q]? = some n) :
    v.move? (w.rank n q) = w.move? q := by
  obtain ⟨job, hjob, rfl⟩ := owners_eq_some_iff.mp hq
  simp only [move?, hjob, h.job hjob rfl, Option.bind_eq_bind, Option.bind_some, h.router,
    h.isCancelled]

/-- **Work** is done in both worlds, or fires in the second the token that it fires in the first. -/
theorem work (h : Shows n w v) (q : Nat) :
    Shows n (w.act (.work q)) (v.exec (w.keptOf n (.work q))) := by
  simp only [keptOf]
  cases hmove : w.move? q with
  | none =>
    -- a call that waits, waits in both worlds
    rw [act_work_of_move?_eq_none hmove]
    split
    · next hq =>
      rw [exec_cons, exec_nil, act_work_of_move?_eq_none ((h.move?_rank hq).trans hmove)]
      exact h
    · simpa [firing?, hmove] using h
  | some x =>
    obtain ⟨job, m⟩ := x
    obtain ⟨r, hjob, hr, hm⟩ := move?_eq_some hmove
    have hroster : m.router.roster = r.roster := (Call.piece_of_move hm).roster
    rw [act_work_of_move? hmove]
    split
    · next hq =>
      rw [exec_cons, exec_nil, act_work_of_move? ((h.move?_rank hq).trans hmove)]
      rw [owners_of_job hjob, Option.some.injEq] at hq
      exact h.after hjob hq (hq ▸ hr)
    · next hq =>
      rw [owners_of_job hjob, Option.some.injEq] at hq
      have hafter := h.after_of_ne hjob hq hr hroster
      have hfiring : w.firing? q = if m.fires then job.call.token else none := by
        simp [firing?, hmove]
      rw [firedBy_eq, ← hfiring, ← h.fired] at hafter
      cases hf : w.firing? q with
      | none => simpa [hf] using hafter
      | some token => simpa [hf, act, World.fire] using hafter

/-- **One act.** Acts of other routers are seen by the tokens that they fire, and by nothing
else. -/
theorem act (h : Shows n w v) (hw : w.WellFormed) (a : Act) :
    Shows n (w.act a) (v.exec (w.keptOf n a)) := by
  cases a with
  | start id handle purpose token script => exact h.start hw id handle purpose token script
  | answer q p => exact h.answer q p
  | fire token => exact h.fire token
  | share handle => exact h.share handle
  | separate handle => exact h.separate handle
  | work q => exact h.work q

end Shows

/-- **The run.** Without the calls of other routers, the calls of a router do what they did. -/
theorem shows_exec {w v : World} (hw : w.WellFormed) (h : Shows n w v) (acts : List Act) :
    Shows n (w.exec acts) (v.exec (w.without n acts)) := by
  induction acts generalizing w v with
  | nil => exact h
  | cons a acts ih =>
    rw [without_cons, exec_append]
    exact ih (hw.act a) (h.act hw a)

/-! ## The pointer along a schedule -/

def lead? (w : World) (n : Nat) : Option Nat :=
  (w.router? n).map Router.lead

/-- The places to which a router points along a schedule, each as long as it lasts; none as long as
there is no such router. -/
def leads (w : World) (n : Nat) (acts : List Act) : List (Option Nat) :=
  (w.lead? n :: (w.along acts).map fun x => (x.1.act x.2).lead? n).destutter (· ≠ ·)

/-- Of an act one act is left at the most. -/
theorem keptOf_cases (w : World) (n : Nat) (a : Act) :
    w.keptOf n a = [] ∨ ∃ b, w.keptOf n a = [b] := by
  cases a with
  | start | answer =>
    simp only [keptOf]
    split
    · exact .inr ⟨_, rfl⟩
    · exact .inl rfl
  | work q =>
    simp only [keptOf]
    split
    · exact .inr ⟨_, rfl⟩
    · cases w.firing? q with
      | none => exact .inl rfl
      | some token => exact .inr ⟨_, rfl⟩
  | fire | share | separate => exact .inr ⟨_, rfl⟩

theorem Shows.lead? {w v : World} (h : Shows n w v) : v.lead? n = w.lead? n :=
  congrArg (Option.map Router.lead) h.router

/-- **The pointer** takes the same way without the calls of other routers. -/
theorem leads_without {w v : World} (hw : w.WellFormed) (h : Shows n w v) (acts : List Act) :
    v.leads n (w.without n acts) = w.leads n acts := by
  unfold leads
  rw [List.destutter_cons', List.destutter_cons']
  induction acts generalizing w v with
  | nil => rw [without_nil, along_nil, along_nil, h.lead?]
  | cons a acts ih =>
    have hact := h.act hw a
    have hrest := ih (hw.act a) hact
    rw [without_cons]
    rcases keptOf_cases w n a with hkept | ⟨b, hkept⟩
    · -- the pointer stays where it is
      rw [hkept, exec_nil] at hact hrest
      rw [hkept, List.nil_append, hrest, along, List.map_cons, ← h.lead?, hact.lead?,
        List.destutter'_cons_neg _ (by simp)]
    · rw [hkept, exec_cons, exec_nil] at hact hrest
      rw [hact.lead?] at hrest
      rw [hkept, List.singleton_append, along, along, List.map_cons, List.map_cons, hact.lead?,
        h.lead?]
      by_cases hsame : w.lead? n = (w.act a).lead? n
      · rw [List.destutter'_cons_neg _ (by simp [hsame]), List.destutter'_cons_neg _ (by simp [hsame]),
          hsame, hrest]
      · rw [List.destutter'_cons_pos _ hsame, List.destutter'_cons_pos _ hsame, hrest]

/-! ## Clones -/

/-- Two clients have one router. -/
def Clones (w : World) (c c' : Nat) : Prop :=
  ∃ h h', w.handles[c]? = some h ∧ w.handles[c']? = some h' ∧ h'.router = h.router

/-- The leader that a client believes in, by place and endpoint. -/
def belief? (w : World) (c : Nat) : Option (Nat × String) :=
  (w.handles[c]?.bind w.routerOf?).map fun r => (r.lead, r.leadEndpoint)

/-- Clients are only added. -/
theorem handles_act (w : World) (a : Act) : w.handles <+: (w.act a).handles := by
  cases a with
  | start id handle purpose token script =>
    simp only [act, start]
    split <;> exact List.prefix_rfl
  | answer q p =>
    simp only [act, answer]
    split
    · split <;> exact List.prefix_rfl
    · exact List.prefix_rfl
  | fire token => exact List.prefix_rfl
  | share handle => exact List.prefix_append _ _
  | separate handle =>
    simp only [act, separate]
    split
    · exact List.prefix_append _ _
    · exact List.prefix_rfl
  | work q =>
    -- work changes calls and routers only
    have hhandles : (w.act (.work q)).handles = w.handles := by
      rcases act_work_cases w q with ⟨-, hact⟩ | ⟨job, r, m, -, -, -, hact⟩
      · rw [hact]
      · rw [hact]
        rfl
    exact hhandles ▸ List.prefix_rfl

/-- Clients stay what they are. -/
theorem handles_exec {w : World} {c : Nat} {h : Handle} (hc : w.handles[c]? = some h)
    (acts : List Act) : (w.exec acts).handles[c]? = some h :=
  exec_induction (P := fun w' => w'.handles[c]? = some h)
    (fun w' a hc => by
      obtain ⟨more, hmore⟩ := handles_act w' a
      rw [← hmore, List.getElem?_append_left (List.getElem?_eq_some_iff.mp hc).1]
      exact hc)
    hc acts

namespace Clones

variable {w : World} {c c' : Nat}

theorem belief? (h : w.Clones c c') : w.belief? c' = w.belief? c := by
  obtain ⟨handle, handle', hc, hc', hrouter⟩ := h
  simp only [World.belief?, hc, hc', Option.bind_some, routerOf?, hrouter]

theorem exec (h : w.Clones c c') (acts : List Act) : (w.exec acts).Clones c c' := by
  obtain ⟨handle, handle', hc, hc', hrouter⟩ := h
  exact ⟨handle, handle', handles_exec hc acts, handles_exec hc' acts, hrouter⟩

/-- A client that shares the router of another one is its clone. -/
theorem of_share {h : Handle} (hc : w.handles[c]? = some h) :
    (w.act (.share h)).Clones c w.handles.length := by
  refine ⟨h, h, ?_, by simp [act, share], rfl⟩
  simp only [act, share]
  rw [List.getElem?_append_left (List.getElem?_eq_some_iff.mp hc).1]
  exact hc

/-- A client with a router of its own is no clone of any client before it. -/
theorem not_of_separate {h h' : Handle} {r r' : Router} (hr : w.routerOf? h = some r)
    (hc : w.handles[c]? = some h') (hr' : w.routerOf? h' = some r') (acts : List Act) :
    ¬ ((w.act (.separate h)).exec acts).Clones c w.handles.length := by
  rintro ⟨handle, handle', hhandle, hhandle', hrouter⟩
  -- its router is a number that none had before
  have hnew : (w.act (.separate h)).handles[w.handles.length]? =
      some ⟨w.routers.length, h.stream⟩ := by
    simp [act, separate, hr]
  have hold := handles_exec hc (.separate h :: acts)
  rw [exec_cons, hhandle] at hold
  rw [handles_exec hnew acts] at hhandle'
  obtain rfl := Option.some.inj hold
  obtain rfl := Option.some.inj hhandle'
  have : handle.router < w.routers.length := router?_lt hr'
  exact absurd hrouter (by simp only; omega)

end Clones

/-- Two sessions that differ in the clients that calls are made through: each is a clone of the
other at that time, for the same stream. -/
inductive Interchange : World → List Step → List Step → Prop where
  | nil {w : World} : Interchange w [] []
  | same {w : World} {ss ss' : List Step} (s : Step)
      (rest : Interchange (w.take s).world ss ss') : Interchange w (s :: ss) (s :: ss')
  | clone {w : World} {ss ss' : List Step} {c c' : Nat} (id : String) (purpose : Purpose)
      (token : Option String) (script : List Planned) (clones : w.Clones c c')
      (stream : w.handles[c']?.map Handle.stream = w.handles[c]?.map Handle.stream)
      (rest : Interchange (w.take (.call id c purpose token script)).world ss ss') :
      Interchange w (.call id c purpose token script :: ss)
        (.call id c' purpose token script :: ss')

/-- **Sessions that differ in clones show the same**, step by step. -/
theorem Interchange.session {w : World} {ss ss' : List Step} (h : w.Interchange ss ss') :
    w.session ss = w.session ss' := by
  induction h with
  | nil => rfl
  | same s rest ih => rw [World.session, World.session, ih]
  | @clone w ss ss' c c' id purpose token script clones stream rest ih =>
    -- for the same stream, clones are the same handle
    obtain ⟨handle, handle', hc, hc', hrouter⟩ := clones
    rw [hc, hc'] at stream
    obtain rfl : handle' = handle := by
      obtain ⟨n, s⟩ := handle
      obtain ⟨n', s'⟩ := handle'
      cases hrouter
      cases stream
      rfl
    have htake : w.take (.call id c purpose token script) =
        w.take (.call id c' purpose token script) := by
      simp only [take, Step.effect?, hc, hc']
    rw [World.session, World.session, ih, htake]

/-- **Clones and separate routers.** From any well-formed world:

* sessions that differ only in the clones that calls are made through have the same accounts:
  worlds and reports;
* when the calls of all other routers are deleted from a schedule, and the tokens that they would
  have fired are fired at the same points, then at every moment the calls of the router stand where
  they stood, have reported what they had reported, and the pointer has come the way that it had
  come. To begin with there is nothing to delete;
* at every moment the clones of a client believe what it believes. A client that shares a router is
  a clone from then on, one with a router of its own never is. -/
theorem clones_and_separate_routers {w : World} (hw : w.WellFormed) :
    (∀ ss ss', w.Interchange ss ss' → w.session ss = w.session ss') ∧
      (∀ n, (w.jobs = [] → w.history = [] → w.only n = w) ∧ ∀ acts,
        Shows n (w.exec acts) ((w.only n).exec (w.without n acts)) ∧
          (w.only n).leads n (w.without n acts) = w.leads n acts ∧
          ∀ later, w.without n acts <+: w.without n (acts ++ later)) ∧
      ∀ c h, w.handles[c]? = some h →
        (∀ c' acts, w.Clones c c' → (w.exec acts).belief? c' = (w.exec acts).belief? c) ∧
          (∀ acts, ((w.act (.share h)).exec acts).Clones c w.handles.length) ∧
          ∀ h' r r' acts, w.routerOf? h = some r → w.routerOf? h' = some r' →
            ¬ ((w.act (.separate h')).exec acts).Clones c w.handles.length := by
  refine ⟨fun ss ss' h => h.session, fun n => ⟨only_of_idle, fun acts => ⟨?_, ?_, ?_⟩⟩,
    fun c h hc => ⟨?_, ?_, ?_⟩⟩
  · exact shows_exec hw (shows_only w n) acts
  · exact leads_without hw (shows_only w n) acts
  · intro later
    rw [without_append]
    exact List.prefix_append _ _
  · intro c' acts hclones
    exact (hclones.exec acts).belief?
  · intro acts
    exact (Clones.of_share hc).exec acts
  · intro h' r r' acts hr hr'
    exact Clones.not_of_separate hr' hc hr acts

/-- Two calls with one token, on a router and on another one that is made anew. The second call
fires the token when it sends its first attempt, while the first one has an attempt in flight. -/
def neighbours : List Act :=
  [.separate ⟨0, .nil⟩,
    .start "y" ⟨1, .nil⟩ (.operation .backlog) (some "t")
      [⟨Planned.refusal.response, some .onSend⟩],
    .start "x" ⟨0, .nil⟩ (.operation .backlog) (some "t") [], .work 1, .work 0, .work 1]

/-- Without its neighbour, the call is the first of all and the token is fired from outside; its
three reports are the same. The two clients are no clones, but a third one that shares the router of
the first one is, and the call may be made through either. -/
theorem clones_and_separate_routers_of_neighbours :
    let kept : List Act :=
      [.separate ⟨0, .nil⟩, .start "x" ⟨0, .nil⟩ (.operation .backlog) (some "t") [], .work 0,
        .fire "t", .work 0]
    let call := fun c => Step.call "x" c (.operation .backlog) (some "t") []
    (pair 0).without 0 neighbours = kept ∧
      Shows 0 ((pair 0).exec neighbours) ((pair 0).exec kept) ∧
      ((pair 0).exec kept).history.map Report.place = [0, 0, 0] ∧
      ¬ ((pair 0).exec neighbours).Clones 0 1 ∧
      ((pair 0).exec (.share ⟨0, .nil⟩ :: neighbours)).Clones 0 1 ∧
      (pair 0).session [.share 0, call 0] = (pair 0).session [.share 0, call 1] := by
  intro kept call
  have hwf : (pair 0).WellFormed := .pair (by decide)
  obtain ⟨hsessions, hdeleted, hclones⟩ := clones_and_separate_routers hwf
  obtain ⟨hidle, hshows⟩ := hdeleted 0
  obtain ⟨-, hshare, hseparate⟩ := hclones 0 ⟨0, .nil⟩ rfl
  have honly : (pair 0).only 0 = pair 0 := hidle rfl rfl
  have hkept : (pair 0).without 0 neighbours = kept := rfl
  refine ⟨hkept, ?_, rfl, ?_, hshare neighbours, ?_⟩
  · have h := (hshows neighbours).1
    rw [honly, hkept] at h
    exact h
  · exact hseparate ⟨0, .nil⟩ _ _ (neighbours.drop 1) rfl rfl
  · exact hsessions _ _ (.same _ (.clone _ _ _ _ ⟨_, _, rfl, rfl, rfl⟩ rfl .nil))

end World

end ClusterClient
