import ClusterClient.Proofs.Receipts
import ClusterClient.Proofs.Repair
import ClusterClient.Proofs.Replies
import ClusterClient.Proofs.Classification
import ClusterClient.Proofs.Validity

/-!
# Replies without success

A reply without success is read twice: by the router, for the mark of a node that is not the leader,
and for the caller, for the most telling text in it. The router takes the bytes as they are, so a
body that is no UTF-8 is no object and bears no mark; the caller is shown the body with its flaws
repaired. Of UTF-8 both see the same.

* **`Reply.Complains`**: what a reply says about itself, by the members of its repaired body.
* **`Reply.answer_mapping`**: what is made of a reply, whatever is to be decoded from it.
* **`Reply.notLeader_iff`**: the mark that the router sees, against the one that the caller sees.
* **`World.rejection_given_back`**, **`World.rejection_retried`**: when a caller is given the mark
  of a node that is not the leader.
-/

namespace ClusterClient

open Json

namespace Reply

variable {r : Reply} {name m : String}

/-- The reply with the flaws of its body repaired. -/
def repaired (r : Reply) : Reply :=
  ⟨r.status, Utf8.encode r.text⟩

theorem text_of_body {s : String} (h : r.body = Utf8.encode s) : r.text = s := by
  rw [text, h]
  exact Utf8.decodeLossy_of_decode? (Utf8.decode?_encode s)

/-- UTF-8 has no flaws. -/
theorem repaired_of_valid (h : Utf8.Valid r.body) : r.repaired = r := by
  obtain ⟨s, hs⟩ := h
  rw [repaired, text_of_body hs, ← hs]

/-! ## What a reply says about itself -/

/-- A mark is what the object of the body says under its name. -/
theorem bears_iff_textOf? :
    r.Bears name m ↔ (r.object?.bind fun v => v.textOf? name) = some m := by
  cases h : r.object? with
  | none => simp [not_bears h]
  | some v => rw [bears_iff h, Option.bind_some]

/-- What a reply says about itself: its last `error` if that is a text, else its last `message`,
else all of it. The members are those of the repaired body. -/
inductive Complains (r : Reply) : String → Prop where
  | error {m : String} (error : r.repaired.Bears "error" m) : Complains r m
  | message {m : String} (silent : ∀ s, ¬ r.repaired.Bears "error" s)
      (message : r.repaired.Bears "message" m) : Complains r m
  | whole (silent : ∀ s, ¬ r.repaired.Bears "error" s)
      (mute : ∀ s, ¬ r.repaired.Bears "message" s) : Complains r r.text

/-- A body has one complaint at most. -/
theorem Complains.unique {m' : String} (h : r.Complains m) (h' : r.Complains m') : m = m' := by
  have hone : ∀ {name s s'}, r.repaired.Bears name s → r.repaired.Bears name s' → s = s' := by
    intro name s s' hs hs'
    rw [bears_iff_textOf?] at hs hs'
    exact Option.some.inj (hs.symm.trans hs')
  cases h with
  | error error =>
    cases h' with
    | error error' => exact hone error error'
    | message silent => exact absurd error (silent m)
    | whole silent => exact absurd error (silent m)
  | message silent message =>
    cases h' with
    | error error' => exact absurd error' (silent m')
    | message _ message' => exact hone message message'
    | whole _ mute => exact absurd message (mute m)
  | whole silent mute =>
    cases h' with
    | error error' => exact absurd error' (silent m')
    | message _ message' => exact absurd message' (mute m')
    | whole => rfl

/-- What the caller is shown, by the object that the repaired body is. -/
theorem complaint_eq (r : Reply) : r.complaint =
    ((r.repaired.object?.bind fun v => v.textOf? "error").or
      (r.repaired.object?.bind fun v => v.textOf? "message")).getD r.text := by
  have hvalue : decode Decoder.ofValue (Utf8.encode r.text) = r.repaired.value := rfl
  dsimp only [complaint, object?]
  rw [hvalue]
  cases r.repaired.value with
  | error p => rfl
  | ok v => cases v <;> rfl

/-- **The caller is shown what the reply says about itself.** -/
theorem complains_complaint (r : Reply) : r.Complains r.complaint := by
  rw [complaint_eq]
  cases herror : r.repaired.object?.bind fun v => v.textOf? "error" with
  | some m => exact .error (bears_iff_textOf?.mpr herror)
  | none =>
    have hsilent : ∀ s, ¬ r.repaired.Bears "error" s := by
      intro s
      rw [bears_iff_textOf?, herror]
      exact nofun
    cases hmessage : r.repaired.object?.bind fun v => v.textOf? "message" with
    | some m => exact .message hsilent (bears_iff_textOf?.mpr hmessage)
    | none =>
      refine .whole hsilent fun s => ?_
      rw [bears_iff_textOf?, hmessage]
      exact nofun

/-- **What is made of a reply.** With a status of success its body is decoded, and that is all.
With any other the caller is given the status and what the reply says about itself, whatever was to
be decoded. The text is the body with its flaws repaired; it is shown whole if it is no object, and
as it came if it is UTF-8 and has no telling member. -/
theorem answer_mapping (r : Reply) :
    (∀ (α : Type) (d : Decoder α), 200 ≤ r.status → r.status < 300 →
      r.accept d = (decode d r.body).mapError .decoding) ∧
    (∃ m, r.Complains m ∧ (∀ m', r.Complains m' → m' = m) ∧
      (∀ (α : Type) (d : Decoder α), ¬(200 ≤ r.status ∧ r.status < 300) →
        r.accept d = .error (.api r.status m)) ∧
      ((∀ ms, ¬ r.repaired.Lists ms) → m = r.text) ∧
      ∀ s, r.body = Utf8.encode s → (∀ t, ¬ r.Bears "error" t) → (∀ t, ¬ r.Bears "message" t) →
        m = s) ∧
    ∀ cs, Utf8.Repairs r.body cs ↔ cs = r.text.toList := by
  have hsuccess : r.isSuccess = true ↔ 200 ≤ r.status ∧ r.status < 300 := by
    simp [isSuccess]
  refine ⟨fun α d hleast hbelow => ?_, ⟨r.complaint, r.complains_complaint, fun m' hm' => ?_,
    fun α d hother => ?_, fun hnone => ?_, fun s hs herror hmessage => ?_⟩, fun cs =>
      Utf8.repairs_iff⟩
  · rw [accept, if_pos (hsuccess.mpr ⟨hleast, hbelow⟩)]
  · exact hm'.unique r.complains_complaint
  · rw [accept, if_neg (mt hsuccess.mp hother)]
  · -- neither text can be found in what is no object
    have hwhole : ∀ name m, ¬ r.repaired.Bears name m := by
      rintro name m ⟨ms, hms, -⟩
      exact hnone ms hms
    exact r.complains_complaint.unique (.whole (hwhole "error") (hwhole "message"))
  · -- a body that is UTF-8 is read as it came
    have hrepaired : r.repaired = r := repaired_of_valid ⟨s, hs⟩
    rw [← text_of_body hs]
    exact r.complains_complaint.unique
      (.whole (by rwa [hrepaired]) (by rwa [hrepaired]))

/-- A telling `message` next to an `error` that is no text, with a byte that is none. -/
def garbledNotice : Reply :=
  ⟨500, Utf8.encode "\x7b\"error\":5,\"message\":\"disk " ++ 0xFF :: Utf8.encode "\"\x7d"⟩

example : garbledNotice.complaint = "disk \uFFFD" := by decide +kernel

/-! ## The mark of a node that is not the leader -/

/-- **The router sees the mark** where the caller does, if the body is UTF-8, and nowhere else. -/
theorem notLeader_iff (r : Reply) : (∃ hint, r.verdict = .notLeader hint) ↔
    r.status = 503 ∧ Utf8.Valid r.body ∧ r.repaired.Bears "error" "Not Leader" := by
  constructor
  · rintro ⟨hint, hverdict⟩
    obtain ⟨hs, v, hv, hmark, -⟩ := verdict_eq_notLeader.mp hverdict
    obtain ⟨ms, hlists, -⟩ := object?_eq_some_iff_lists.mp hv
    have hvalid : Utf8.Valid r.body := (ObjectText.denotes hlists).valid
    exact ⟨hs, hvalid, by rw [repaired_of_valid hvalid]; exact (bears_iff hv).mpr hmark⟩
  · rintro ⟨hs, hvalid, hbears⟩
    rw [repaired_of_valid hvalid] at hbears
    obtain ⟨v, hv, hmark⟩ := Option.bind_eq_some_iff.mp (bears_iff_textOf?.mp hbears)
    exact ⟨_, verdict_eq_notLeader.mpr ⟨hs, v, hv, hmark, rfl⟩⟩

end Reply

/-- A caller who noted a text is given the complaint of a reply without success that is final. -/
theorem Purpose.conclude_note_of_not_success {roster : Roster} {content : String} {r : Reply}
    (hr : r.isSuccess = false) :
    (note roster content).conclude (.ok r) = .error (.api r.status r.complaint) := by
  show (Operation.store { tenant := roster.tenant, content }).answer r = _
  exact Operation.answer_of_not_success hr _

namespace World

/-- **The mark of a node that is not the leader is not reported** to a caller. With status 503, the
router sees it in every body of UTF-8 from which the caller would be shown it. So in any run, a
caller who is given a status of 503 with that mark for its text has been answered with a body that
is no UTF-8. -/
theorem rejection_retried {w : World} (hw : w.WellFormed) :
    (∀ r : Reply, r.status = 503 → ((∃ hint, r.verdict = .notLeader hint) ↔
      Utf8.Valid r.body ∧ r.repaired.Bears "error" "Not Leader")) ∧
    ∀ (acts : List Act) (q : Nat) (job : Job) (o : Operation) (result : Except Fault Reply)
      (detail : String), w.jobs.length ≤ q → (w.exec acts).jobs[q]? = some job →
      job.purpose = .operation o → job.call.phase = .ended result →
      job.purpose.conclude result = .error (.api 503 detail) →
        ∃ r, (w.outcomes q acts).getLast? = some (.ok r) ∧ r.status = 503 ∧ r.Complains detail ∧
          (Utf8.Valid r.body → ¬ r.repaired.Bears "error" "Not Leader") := by
  refine ⟨fun r hs => ?_, ?_⟩
  · rw [r.notLeader_iff, and_iff_right hs]
  · intro acts q job o result detail hq hjob hpurpose hended hanswer
    have huncancelled : ∀ k, result ≠ .error (.cancelled k) := by
      rintro k rfl
      cases hanswer
    obtain ⟨n, -, hfate, -⟩ := Finishes.fate hw ⟨hq, hjob, hended, .inr huncancelled⟩
    obtain ⟨r, hlast, hs, hcomplaint, -, hunmarked⟩ :=
      ((hfate.settlement job.purpose).api o hpurpose 503 detail).mp hanswer
    refine ⟨r, hlast, hs, hcomplaint ▸ r.complains_complaint, fun hvalid hbears => ?_⟩
    obtain ⟨hint, hverdict⟩ := r.notLeader_iff.mpr ⟨hs, hvalid, hbears⟩
    exact hunmarked hint hverdict

/-- A node that is too busy. -/
def busyNotice : Reply :=
  ⟨503, Utf8.encode "\x7b\"error\":\"Busy\"\x7d"⟩

/-- The caller is told that the node is busy, and nothing about leaders. -/
theorem rejection_retried_of_busy :
    ∃ job, ((pair 0).exec (noting busyNotice ++ [.work 0])).jobs[0]? = some job ∧
      job.purpose.conclude (.ok busyNotice) = .error (.api 503 "Busy") ∧
      busyNotice.Complains "Busy" ∧ ¬ busyNotice.repaired.Bears "error" "Not Leader" := by
  have hfinal : busyNotice.verdict.isRetryable = false := by decide +kernel
  obtain ⟨job, hjob, hpurpose, hended, houtcomes⟩ := ended_noting hfinal
  have hanswer : job.purpose.conclude (.ok busyNotice) = .error (.api 503 "Busy") := by
    have hcomplaint : busyNotice.complaint = "Busy" := by decide +kernel
    rw [hpurpose, Purpose.conclude_note_of_not_success rfl, hcomplaint]
    rfl
  obtain ⟨-, hgiven⟩ := rejection_retried (w := pair 0) (.pair (by decide))
  have hgiven := hgiven (noting busyNotice ++ [.work 0]) 0 job
    (.store ⟨"acme", "hello", none, none, none, none, none⟩) (.ok busyNotice) "Busy"
  obtain ⟨r, hlast, -, hcomplains, hunmarked⟩ := hgiven (Nat.zero_le 0) hjob hpurpose hended hanswer
  rw [houtcomes] at hlast
  obtain rfl : busyNotice = r := Except.ok.inj (Option.some.inj hlast)
  have hvalid : Utf8.Valid busyNotice.body := ⟨"\x7b\"error\":\"Busy\"\x7d", rfl⟩
  exact ⟨job, hjob, hanswer, hcomplains, hunmarked hvalid⟩

/-- The rejection of a node that is not the leader, with a byte in its hint that is no UTF-8. -/
def garbledRejection : Reply :=
  ⟨503, Utf8.encode "\x7b\"error\":\"Not Leader\",\"hint\":\"" ++ 0xFF :: Utf8.encode "\"\x7d"⟩

/-- The router sees no object, and the caller is given the mark. -/
theorem rejection_given_back :
    garbledRejection.status = 503 ∧ garbledRejection.repaired.Bears "error" "Not Leader" ∧
      (∀ hint, garbledRejection.verdict ≠ .notLeader hint) ∧
      ∃ job, ((pair 0).exec (noting garbledRejection ++ [.work 0])).jobs[0]? = some job ∧
        job.call.phase = .ended (.ok garbledRejection) ∧
        (pair 0).outcomes 0 (noting garbledRejection ++ [.work 0]) = [.ok garbledRejection] ∧
        job.purpose.conclude (.ok garbledRejection) = .error (.api 503 "Not Leader") := by
  have hfinal : garbledRejection.verdict = .other := by decide +kernel
  have hmark : (garbledRejection.repaired.object?.bind fun v => v.textOf? "error") =
      some "Not Leader" := by decide +kernel
  have hcomplaint : garbledRejection.complaint = "Not Leader" := by decide +kernel
  obtain ⟨job, hjob, hpurpose, hended, houtcomes⟩ :=
    ended_noting (congrArg Verdict.isRetryable hfinal)
  refine ⟨rfl, Reply.bears_iff_textOf?.mpr hmark, ?_, job, hjob, hended, houtcomes, ?_⟩
  · rw [hfinal]
    exact nofun
  · rw [hpurpose, Purpose.conclude_note_of_not_success rfl, hcomplaint]
    rfl

end World

end ClusterClient
