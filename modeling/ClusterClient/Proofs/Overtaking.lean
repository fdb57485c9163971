import ClusterClient.Proofs.Exhaustion

/-!
# Attempts that are overtaken

While an attempt is in flight another call may move the pointer on from the place that the attempt
was sent to. The refusal of such an attempt comes late: the place has been left already, and leaving
it again would skip the next one. The guard in `Router.leave` compares places, so it knows a late
refusal by the pointer being elsewhere. That is enough until the others have led the pointer round
the whole ring. Then it is back at the place, the late refusal passes for a fresh one, and a second
call leaves the place that a first one had left.

* **`World.Overtakes`**: another call moves the pointer on from a place.
* **`World.overtakes_iff`**: a call that hears nothing is overtaken as soon as the pointer moves.
* **`World.overtaken_refusal`**: a late refusal leaves the router alone exactly when the advances
  that its attempt has missed are no whole number of rounds.
-/

namespace ClusterClient

namespace World

/-- Another call than the one at `q` moves the pointer of a router on from a place. -/
def Overtakes (w : World) (q n place : Nat) (acts : List Act) : Prop :=
  ∃ before a after x, acts = before ++ a :: after ∧ (w.exec before).advances n a = true ∧
    (w.exec before).hearing? a = some x ∧ x.caller ≠ q ∧ x.target = place

variable {w : World} {q n : Nat} {r : Router}

/-- What is heard while a call hears nothing is heard by others. -/
theorem caller_ne_of_unheard {acts : List Act} {x : Hearing} (hnone : w.heardBy q acts = [])
    (hx : x ∈ w.hearings acts) : x.caller ≠ q := by
  intro hcaller
  have hmem : x ∈ w.heardBy q acts := mem_heardBy.mpr ⟨hx, hcaller⟩
  rw [hnone] at hmem
  cases hmem

/-- Sending leaves every router as it is. -/
theorem router?_of_sendings {s : Sending}
    (hs : (w.act (.work q)).sendings q = w.sendings q ++ [s]) (hr : w.router? n = some r) :
    (w.act (.work q)).router? n = some r := by
  have hne : (w.act (.work q)).sendings q ≠ w.sendings q := by simp [hs]
  obtain ⟨-, job, r', attempt, hjob, hr', hphase, -⟩ := sendings_act_of_ne hne
  have hnone : w.hearing? (.work q) = none := by
    rw [hearing?_work hjob hr', Call.heard?_of_poised r' hphase]
    rfl
  rw [router?_act hr, hnone]

/-- **The first advance overtakes.** A call that hears nothing is overtaken, at the place where the
pointer was, as soon as the pointer moves at all. -/
theorem overtakes_iff (hr : w.router? n = some r) (hlead : r.lead < r.roster.size)
    {acts : List Act} (hnone : w.heardBy q acts = []) :
    w.Overtakes q n r.lead acts ↔ 0 < w.advanceCount n acts := by
  constructor
  · rintro ⟨before, a, after, x, rfl, hadvances, -, -, -⟩
    have hone : w.advanceCount n (before ++ [a]) = w.advanceCount n before + 1 := by
      rw [advanceCount_concat, if_pos hadvances]
    have hall := advanceCount_append w n (before ++ [a]) after
    rw [List.append_assoc, List.singleton_append] at hall
    omega
  · intro hmoved
    obtain ⟨before, a, after, rfl, hadvances, hzero⟩ := exists_advance hmoved
    -- until then the pointer has stayed
    have hrouter := lead_exec hr hlead before
    rw [hzero, Router.moved_zero hlead] at hrouter
    obtain ⟨x, hx, -, -, htarget⟩ := exists_hearing_of_advances hadvances hrouter
    have hother : x.caller ≠ q :=
      caller_ne_of_unheard hnone (mem_hearings.mpr ⟨before, a, after, rfl, hx⟩)
    exact ⟨before, a, after, x, rfl, hadvances, hx, hother, htarget⟩

/-- **The refusal of an overtaken attempt.** Let a call send an attempt and be refused later, on a
ring of two places or more, and let another call move the pointer on from the place of the attempt
in between. Then taking note of the refusal leaves the router as it is exactly when the advances
made in between are no whole number of rounds:

* as long as they are not, the pointer is elsewhere and stays there;
* once they are, every place has refused another call in between, the pointer is back at the place
  of the attempt, and it moves on from there a second time. -/
theorem overtaken_refusal (hw : w.WellFormed) {s : Sending} {since : List Act} {x : Hearing}
    (hs : (w.act (.work q)).sendings q = w.sendings q ++ [s])
    (hnone : (w.act (.work q)).heardBy q since = [])
    (hx : ((w.act (.work q)).exec since).hearing? (.work q) = some x)
    (ho : x.outcome.isRefusal = true)
    (hovertaken : (w.act (.work q)).Overtakes q x.router s.place since) :
    let later := (w.act (.work q)).exec since
    let missed := (w.act (.work q)).advanceCount x.router since
    ∃ r, later.router? x.router = some r ∧ 0 < missed ∧
      (2 ≤ r.roster.size → ((later.act (.work q)).router? x.router = later.router? x.router ↔
        ¬ r.roster.size ∣ missed)) ∧
      (¬ r.roster.size ∣ missed → r.lead ≠ s.place ∧
        (later.act (.work q)).router? x.router = some r) ∧
      (r.roster.size ∣ missed → r.lead = s.place ∧
        (later.act (.work q)).router? x.router = some { r with lead := r.roster.next s.place } ∧
        ∀ place < r.roster.size, ∃ y ∈ (w.act (.work q)).hearings since, y.caller ≠ q ∧
          y.router = x.router ∧ y.target = place ∧ y.outcome.isRefusal = true) := by
  intro later missed
  obtain ⟨r₀, r, hr₀, hr, hroster, hplace, htarget, hiff, hback⟩ :=
    advances_iff_of_sendings hw hs hnone hx ho
  have hsent : (w.act (.work q)).router? x.router = some r₀ := router?_of_sendings hs hr₀
  have hlead : r₀.lead < r₀.roster.size := hw.lead_lt _ r₀ hr₀
  have hmoved : 0 < missed := by
    rw [hplace] at hovertaken
    exact (overtakes_iff hsent hlead hnone).mp hovertaken
  have hafter := router?_act_eq hr (.work q)
  -- elsewhere the guard holds
  have hstays : ¬ r₀.roster.size ∣ missed →
      (later.act (.work q)).router? x.router = some r := by
    intro hround
    rw [hafter, if_neg (hround ∘ hiff.mp)]
  have hleaves : r₀.roster.size ∣ missed → (later.act (.work q)).router? x.router =
      some { r with lead := r.roster.next s.place } := by
    intro hround
    rw [hafter, if_pos (hiff.mpr hround), hback hround, hplace]
  have hwhere : r.lead = s.place ↔ r₀.roster.size ∣ missed := by
    obtain rfl := Option.some.inj (hr.symm.trans (lead_exec hsent hlead since))
    rw [hplace]
    exact round_iff hlead
  rw [← hroster] at hstays hleaves hwhere
  refine ⟨r, hr, hmoved, ?_, ?_, ?_⟩
  · intro htwo
    refine ⟨?_, fun hround => (hstays hround).trans hr.symm⟩
    intro hsame hround
    rw [hleaves hround, hr] at hsame
    have hnext : r.roster.next s.place = r.lead := congrArg Router.lead (Option.some.inj hsame)
    rw [hwhere.mpr hround] at hnext
    have hplace_lt : s.place < r.roster.size := by
      rw [hplace, hroster]
      exact hlead
    exact Roster.next_ne hplace_lt htwo hnext
  · intro hround
    exact ⟨hround ∘ hwhere.mp, hstays hround⟩
  · intro hround
    refine ⟨hwhere.mpr hround, hleaves hround, ?_⟩
    intro place hlt
    rw [hroster] at hlt hround
    have hwhole : r₀.roster.size ≤ missed := Nat.le_of_dvd hmoved hround
    obtain ⟨y, hy, hn, hrefusal, hat⟩ := refusal_everywhere hsent hlead hwhole hlt
    exact ⟨y, hy, caller_ne_of_unheard hnone hy, hn, hat, hrefusal⟩

/-- Two calls that have been started. The first node refuses both, the second one the second
call. -/
def rivals : World :=
  (pair 0).exec [.start "x" ⟨0, .nil⟩ (.operation .backlog) none [.refusal],
    .start "y" ⟨0, .nil⟩ (.operation .backlog) none [.refusal, .refusal, .broken]]

/-- Two calls on one router of a well-formed world. -/
theorem WellFormed.rivals : rivals.WellFormed :=
  (WellFormed.pair (by decide)).exec _

def lateRefusal : Hearing :=
  ⟨0, 0, 1, 0, .error ⟨true, "http://n", "connection refused"⟩⟩

theorem sendings_rivals : (rivals.act (.work 0)).sendings 0 = rivals.sendings 0 ++
    [⟨0, "http://a", Roster.pair.request (Operation.backlog.draft .nil "acme")⟩] := rfl

/-- The second call is refused twice, and the pointer goes round. -/
def wholeRound : List Act := [.work 1, .work 1, .work 1, .work 1]

/-- While the first call waits, the second one goes once around the ring. -/
theorem rivals_overtaken : (rivals.act (.work 0)).Overtakes 0 0 0 wholeRound :=
  (overtakes_iff (r := ⟨.pair, 0⟩) rfl (by decide) rfl).mpr (by decide)

/-- The first call sends its attempt to the first node, and then the second call works. When it has
been refused once, the refusal of the first call leaves the pointer at the second node. When it has
been refused twice, the pointer has gone round, and that refusal moves it on again. -/
theorem overtaken_refusal_of_rivals :
    let w := rivals.act (.work 0)
    let once := w.exec [.work 1, .work 1]
    let twice := w.exec wholeRound
    (once.act (.work 0)).router? 0 = some ⟨.pair, 1⟩ ∧ once.router? 0 = some ⟨.pair, 1⟩ ∧
      (twice.act (.work 0)).router? 0 = some ⟨.pair, 1⟩ ∧ twice.router? 0 = some ⟨.pair, 0⟩ := by
  intro w once twice
  have honce : w.Overtakes 0 0 0 [.work 1, .work 1] :=
    (overtakes_iff (r := ⟨.pair, 0⟩) rfl (by decide) rfl).mpr (by decide)
  obtain ⟨r, hr, -, -, hstays, -⟩ :=
    overtaken_refusal .rivals sendings_rivals (x := lateRefusal) rfl rfl rfl honce
  obtain ⟨r', hr', -, -, -, hleaves⟩ :=
    overtaken_refusal .rivals sendings_rivals (x := lateRefusal) rfl rfl rfl rivals_overtaken
  obtain rfl : (⟨.pair, 1⟩ : Router) = r := Option.some.inj hr
  obtain rfl : (⟨.pair, 0⟩ : Router) = r' := Option.some.inj hr'
  exact ⟨(hstays (by decide)).2, rfl, (hleaves (by decide)).2.1, rfl⟩

/-- **The guard does not see a whole round.** It is not so that the refusal of an attempt always
leaves the router as it is once another call has moved the pointer on from the attempt's place. -/
theorem not_idle_of_overtaken :
    ¬ ∀ (w : World) (q : Nat) (s : Sending) (since : List Act) (x : Hearing) (r : Router),
      w.WellFormed → (w.act (.work q)).sendings q = w.sendings q ++ [s] →
      (w.act (.work q)).heardBy q since = [] →
      ((w.act (.work q)).exec since).hearing? (.work q) = some x →
      x.outcome.isRefusal = true →
      (w.act (.work q)).Overtakes q x.router s.place since →
      ((w.act (.work q)).exec since).router? x.router = some r → 2 ≤ r.roster.size →
        (((w.act (.work q)).exec since).act (.work q)).router? x.router = some r := by
  intro h
  have hidle := h rivals 0 _ wholeRound lateRefusal ⟨.pair, 0⟩ .rivals sendings_rivals rfl rfl rfl
    rivals_overtaken rfl (by decide)
  have hmoved : (((rivals.act (.work 0)).exec wholeRound).act (.work 0)).router? 0 =
      some ⟨.pair, 1⟩ := rfl
  have hlead : (0 : Nat) = 1 := congrArg Router.lead (Option.some.inj (hidle.symm.trans hmoved))
  cases hlead

end World

end ClusterClient
