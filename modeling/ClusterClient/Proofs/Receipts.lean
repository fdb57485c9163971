import ClusterClient.Proofs.Fate

/-!
# Receipts that say what a referral says

The same bytes are read twice: as any value, by the router that looks for the mark of a referral,
and as a receipt, by the caller who stored an event. The readers differ: the second one also takes a
list of fields for a receipt, and passes over members of other names whatever they hold. Where the
first one finds an object, the two see the same `status`.

* **`Receipt.readMembers_cases`**: the members of an object, read both ways.
* **`Reply.object?_of_receipt`**, **`Reply.redirects_iff_of_receipt`**: a whole body.
* **`World.receipt_status`**: what a caller may be given, along any run.
-/

namespace ClusterClient

open Json

namespace Receipt

/-- A member that a receipt passes over, and that has no value. -/
def Skipped (room : Nat) (m : Token × Tree) : Prop :=
  (∃ name, m.1.name = .ok name ∧ record.field? name = none) ∧
    ∃ p, Decoder.ofValue room m.2 = .error p

/-- A receipt has two fields. -/
theorem field?_cases {name : String} {f : Json.Field Receipt} (h : record.field? name = some f) :
    (name = "status" ∧ f = .needed "status" Decoder.ofString fun s r => { r with status := s }) ∨
      name = "event_id" ∧
        f = .needed "event_id" Decoder.ofUuid fun u r => { r with event := u } := by
  have hname : f.name = name := by simpa using List.find?_some h
  have hmem : f ∈ record.fields := List.mem_of_find?_eq_some h
  simp only [record, List.mem_cons, List.not_mem_nil, or_false] at hmem
  rcases hmem with rfl | rfl
  · exact .inl ⟨hname.symm, rfl⟩
  · exact .inr ⟨hname.symm, rfl⟩

/-- A receipt is complete only with its status. -/
theorem close_eq_ok {seen : List String} {a x : Receipt} (h : record.close seen a = .ok x) :
    "status" ∈ seen ∧ a = x := by
  unfold Record.close at h
  split at h
  · cases h
  · next hnone =>
    refine ⟨?_, Except.ok.inj h⟩
    simpa [record, Field.needed] using List.find?_eq_none.mp hnone _ (List.mem_cons_self ..)

/-- **The members of an object, read both ways.** Unless a member that the receipt passes over has
no value, the object is a value, and its `status` is that of the receipt. -/
theorem readMembers_cases {room : Nat} {ms : List (Token × Tree)} {x : Receipt} :
    ∀ {seen : List String} {a : Receipt} (done : List (String × Value)),
      record.readMembers room seen a ms = .ok x →
      ("status" ∈ seen → done.lookup "status" = some (.string a.status)) →
        (∃ final, Decoder.ofMembers room done ms = .ok final ∧
          final.lookup "status" = some (.string x.status)) ∨ ∃ m ∈ ms, Skipped room m := by
  induction ms with
  | nil =>
    intro seen a done h hseen
    obtain ⟨hstatus, rfl⟩ := close_eq_ok h
    exact .inl ⟨done, rfl, hseen hstatus⟩
  | cons m ms ih =>
    intro seen a done h hseen
    obtain ⟨token, t⟩ := m
    -- the rest, once the member has a value and the status is still on record
    have step : ∀ {name v seen' a'}, token.name = .ok name → Decoder.ofValue room t = .ok v →
        record.readMembers room seen' a' ms = .ok x →
        ("status" ∈ seen' → (insertMember name v done).lookup "status" = some (.string a'.status)) →
          (∃ final, Decoder.ofMembers room done ((token, t) :: ms) = .ok final ∧
            final.lookup "status" = some (.string x.status)) ∨
              ∃ m ∈ (token, t) :: ms, Skipped room m := by
      intro name v seen' a' hname hv hrest hseen'
      rcases ih _ hrest hseen' with ⟨final, hfinal, hlookup⟩ | ⟨m, hm, hskipped⟩
      · exact .inl ⟨final, Decoder.ofMembers_cons_eq_ok.mpr ⟨name, v, hname, hv, hfinal⟩, hlookup⟩
      · exact .inr ⟨m, List.mem_cons_of_mem _ hm, hskipped⟩
    unfold Record.readMembers at h
    split at h
    · cases h
    · next name hname =>
      split at h
      · next f hf =>
        split at h
        · cases h
        · next hnew =>
          split at h
          · next set hset =>
            rcases field?_cases hf with ⟨rfl, rfl⟩ | ⟨rfl, rfl⟩
            · obtain ⟨s, hs, rfl⟩ := Decoder.map_eq_ok.mp hset
              refine step hname (Decoder.ofString_eq_ok hs) h fun _ => ?_
              exact lookup_insertMember_self _ _ _
            · obtain ⟨u, hu, rfl⟩ := Decoder.map_eq_ok.mp hset
              obtain ⟨v, hv⟩ := Decoder.ofUuid_eq_ok hu
              refine step hname hv h fun hmem => ?_
              rw [lookup_insertMember_of_ne (by decide)]
              exact hseen (by simpa using hmem)
          · cases h
      · next hnone =>
        split at h
        · cases hv : Decoder.ofValue room t with
          | error p => exact .inr ⟨_, List.mem_cons_self, ⟨name, hname, hnone⟩, p, hv⟩
          | ok v =>
            refine step hname hv h fun hmem => ?_
            rw [lookup_insertMember_of_ne]
            · exact hseen hmem
            · rintro rfl
              cases hnone
        · cases h

/-- An array that is a receipt lists both fields and nothing else. -/
theorem readItems_eq_ok {room : Nat} {ts : List Tree} {x : Receipt}
    (h : record.readItems room 0 record.blank record.fields ts = .ok x) : ts.length = 2 := by
  match ts with
  | [_, _] => rfl
  | [] => cases h
  | [t] =>
    simp only [record, Record.readItems, Field.needed, if_true] at h
    split at h <;> cases h
  | _ :: _ :: _ :: _ =>
    simp only [record, Record.readItems] at h
    split at h
    · split at h <;> cases h
    · cases h

/-- What a body must be to be a receipt and no object: a list of the fields, or an object with a
member that the receipt passes over and that has no value. -/
inductive Overlooked (body : List UInt8) : Prop where
  | list {ts : List Tree} (tree : (Document.ofBytes body).tree = .array ts) (two : ts.length = 2)
  | skipped {ms : List (Token × Tree)} {m : Token × Tree}
      (tree : (Document.ofBytes body).tree = .object ms) (mem : m ∈ ms)
      (skipped : Skipped (nestingLimit - 1) m)

end Receipt

namespace Json

/-- The members of an object that is a value are values. -/
theorem Decoder.ofValue_of_mem {room : Nat} {ms : List (Token × Tree)} {m : Token × Tree} :
    ∀ {done final : List (String × Value)}, ofMembers room done ms = .ok final → m ∈ ms →
      ∃ v, ofValue room m.2 = .ok v := by
  induction ms with
  | nil =>
    intro done final h hm
    cases hm
  | cons first ms ih =>
    intro done final h hm
    obtain ⟨name, v, -, hv, hmore⟩ := ofMembers_cons_eq_ok.mp h
    rcases List.mem_cons.mp hm with rfl | hm
    · exact ⟨v, hv⟩
    · exact ih hmore hm

end Json

namespace Reply

variable {r : Reply}

/-- An array is no object, whatever its items are. -/
theorem object?_of_array {ts : List Tree} (htree : (Document.ofBytes r.body).tree = .array ts) :
    r.object? = none := by
  refine object?_eq_none_iff.mpr fun ms hms => ?_
  have hvalue := (decode_eq_ok.mp hms).1
  rw [htree] at hvalue
  obtain ⟨vs, -, hvs⟩ := Decoder.map_eq_ok.mp
    (show (Decoder.ofItems 126 ts).map Value.array = .ok (.object ms) from hvalue)
  cases hvs

/-- A body with members is an object exactly if they have values. -/
theorem object?_of_members {ms : List (Token × Tree)}
    (htree : (Document.ofBytes r.body).tree = .object ms)
    (hwhole : (Document.ofBytes r.body).trailing = false) {v : Value} :
    r.object? = some v ↔ ∃ final, Decoder.ofMembers 126 [] ms = .ok final ∧ v = .object final := by
  have hvalue : ∀ final, r.value = .ok (.object final) ↔
      Decoder.ofMembers 126 [] ms = .ok final := by
    intro final
    show decode Decoder.ofValue r.body = .ok (.object final) ↔ _
    rw [decode_eq_ok, and_iff_left hwhole, htree]
    show (Decoder.ofMembers 126 [] ms).map Value.object = .ok (.object final) ↔ _
    rw [Decoder.map_eq_ok]
    simp only [Value.object.injEq, exists_eq_right]
  rw [object?_eq_some_iff]
  constructor
  · rintro ⟨final, rfl, hfinal⟩
    exact ⟨final, (hvalue final).mp hfinal, rfl⟩
  · rintro ⟨final, hfinal, rfl⟩
    exact ⟨final, rfl, (hvalue final).mpr hfinal⟩

/-- **A body, read both ways.** A receipt that is an object has the object's `status`. -/
theorem object?_of_receipt {x : Receipt} (h : decode Receipt.decoder r.body = .ok x) :
    (∃ v, r.object? = some v ∧ v.textOf? "status" = some x.status) ∨
      r.object? = none ∧ Receipt.Overlooked r.body := by
  obtain ⟨hread, hwhole⟩ := decode_eq_ok.mp h
  cases htree : (Document.ofBytes r.body).tree with
  | scalar s | broken =>
    rw [htree] at hread
    cases hread
  | array ts =>
    rw [htree] at hread
    exact .inr ⟨object?_of_array htree, .list htree (Receipt.readItems_eq_ok hread)⟩
  | object ms =>
    rw [htree] at hread
    have hread : Receipt.record.readMembers 126 [] Receipt.record.blank ms = .ok x := hread
    rcases Receipt.readMembers_cases [] hread (by simp) with
      ⟨final, hfinal, hlookup⟩ | ⟨m, hmem, hskipped⟩
    · -- all members have values, and the field is read from the last `status`
      refine .inl ⟨_, (object?_of_members htree hwhole).mpr ⟨final, hfinal, rfl⟩, ?_⟩
      show (final.lookup "status").bind Value.text? = some x.status
      rw [hlookup]
      rfl
    · -- the member that was passed over has no value, so the object has none
      refine .inr ⟨?_, .skipped htree hmem hskipped⟩
      refine Option.eq_none_iff_forall_ne_some.mpr fun v hv => ?_
      obtain ⟨final, hfinal, -⟩ := (object?_of_members htree hwhole).mp hv
      obtain ⟨-, p, hp⟩ := hskipped
      obtain ⟨w, hw⟩ := Decoder.ofValue_of_mem hfinal hmem
      cases hp.symm.trans hw

/-- With status 200, the router and the caller agree about a receipt that is an object. -/
theorem redirects_iff_of_receipt {x : Receipt} (hs : r.status = 200)
    (h : decode Receipt.decoder r.body = .ok x) (hobject : r.object? ≠ none) :
    (∃ leader, r.verdict = .redirect leader) ↔ x.status = redirectStatus := by
  rcases object?_of_receipt h with ⟨v, hv, hstatus⟩ | ⟨hnone, -⟩
  · have hverdict : r.verdict = if x.status = redirectStatus then
        .redirect ((v.get? "leader_id").bind Value.natural?) else .success := by
      simp only [verdict, hs, if_true, hv, hstatus, Option.some.injEq]
    rw [hverdict]
    constructor
    · rintro ⟨leader, hleader⟩
      split at hleader
      · next heq => exact heq
      · cases hleader
    · intro heq
      exact ⟨_, if_pos heq⟩
  · exact absurd hnone hobject

end Reply

/-- Whoever notes a text is given the receipt that a successful reply holds. -/
theorem Purpose.conclude_note {roster : Roster} {content : String} {r : Reply} {x : Receipt}
    (hr : r.isSuccess = true) (h : decode Receipt.decoder r.body = .ok x) :
    (Purpose.note roster content).conclude (.ok r) = .ok (.receipt x) := by
  show (Operation.store { tenant := roster.tenant, content }).answer r = _
  rw [Operation.answer_of_success hr, Operation.read, h]
  rfl

/-- Only a receipt is given back as one. -/
theorem Operation.decode_of_receipt {e : Event} {r : Reply} {x : Receipt}
    (h : (Operation.store e).answer r = .ok (.receipt x)) :
    decode Receipt.decoder r.body = .ok x := by
  obtain ⟨y, hy, hx⟩ := Decoder.map_eq_ok.mp h
  cases hx
  unfold Reply.accept at hy
  split at hy
  · cases hdecode : decode Receipt.decoder r.body with
    | ok z =>
      rw [hdecode] at hy
      exact congrArg Except.ok (Except.ok.inj hy)
    | error p =>
      rw [hdecode] at hy
      cases hy
  · cases hy

namespace World

/-- **What a caller who stored an event may be given.** With status 200, the router and the caller
agree about every receipt that is an object. So in any run, a caller whose event was answered with
status 200 is not given a receipt that says what a referral says, unless the body is overlooked by
the router: a list, or an object with a member that only the receipt passes over. -/
theorem receipt_status {w : World} (hw : w.WellFormed) :
    (∀ (r : Reply) (x : Receipt), r.status = 200 → decode Receipt.decoder r.body = .ok x →
      r.object? ≠ none → ((∃ leader, r.verdict = .redirect leader) ↔ x.status = redirectStatus)) ∧
    ∀ (acts : List Act) (q : Nat) (job : Job) (e : Event) (result : Except Fault Reply)
      (x : Receipt), w.jobs.length ≤ q → (w.exec acts).jobs[q]? = some job →
      job.purpose = .operation (.store e) → job.call.phase = .ended result →
      job.purpose.conclude result = .ok (.receipt x) →
        ∃ r, (w.outcomes q acts).getLast? = some (.ok r) ∧
          decode Receipt.decoder r.body = .ok x ∧
          (r.status = 200 → r.object? ≠ none → x.status ≠ redirectStatus) ∧
          (r.status = 200 → x.status = redirectStatus → Receipt.Overlooked r.body) := by
  refine ⟨fun r x hs h hobject => Reply.redirects_iff_of_receipt hs h hobject, ?_⟩
  intro acts q job e result x hq hjob hpurpose hended hanswer
  have huncancelled : ∀ k, result ≠ .error (.cancelled k) := by
    rintro k rfl
    cases hanswer
  obtain ⟨n, -, hfate, -⟩ := Finishes.fate hw ⟨hq, hjob, hended, .inr huncancelled⟩
  have hsettled := hfate.settlement job.purpose
  obtain ⟨r, hlast, hsuccess, hunmarked⟩ :=
    hsettled.decoded_only _ hpurpose (.inl ⟨_, hanswer⟩)
  have hread := hsettled.decoded _ hpurpose r hlast hsuccess hunmarked
  rw [hanswer, ← Operation.answer_of_success hsuccess] at hread
  have hdecode := Operation.decode_of_receipt hread.symm
  refine ⟨r, hlast, hdecode, ?_, ?_⟩
  · intro hs hobject heq
    obtain ⟨leader, hleader⟩ := (Reply.redirects_iff_of_receipt hs hdecode hobject).mpr heq
    exact hunmarked leader hleader
  · intro hs heq
    rcases Reply.object?_of_receipt hdecode with ⟨v, hv, -⟩ | ⟨-, hoverlooked⟩
    · obtain ⟨leader, hleader⟩ := (Reply.redirects_iff_of_receipt hs hdecode (by simp [hv])).mpr heq
      exact absurd hleader (hunmarked leader)
    · exact hoverlooked

/-- A caller notes a text on a client of two nodes, and the first one replies. -/
def noting (r : Reply) : List Act :=
  [.start "x" ⟨0, .nil⟩ (.note .pair "hello") none [⟨.reply r, none⟩], .work 0]

/-- If the reply is final, the call ends in it. -/
theorem ended_noting {r : Reply} (hverdict : r.verdict.isRetryable = false) :
    ∃ job, ((pair 0).exec (noting r ++ [.work 0])).jobs[0]? = some job ∧
      job.purpose = .note .pair "hello" ∧ job.call.phase = .ended (.ok r) ∧
      (pair 0).outcomes 0 (noting r ++ [.work 0]) = [.ok r] := by
  obtain ⟨job, hjob, hpurpose, hrouter, htoken, hphase⟩ :
      ∃ job, ((pair 0).exec (noting r)).jobs[0]? = some job ∧
        job.purpose = .note .pair "hello" ∧ job.router = 0 ∧ job.call.token = none ∧
        job.call.phase = .inFlight 1 0 (some ⟨.reply r, none⟩) :=
    ⟨_, rfl, rfl, rfl, rfl, rfl⟩
  have hr : ((pair 0).exec (noting r)).router? job.router = some ⟨.pair, 0⟩ := by
    rw [hrouter]
    rfl
  have hcancelled : ((pair 0).exec (noting r)).isCancelled job.call = false := by
    simp [isCancelled, htoken]
  have hfinal : Outcome.isRefusal (.ok r) = false := hverdict
  obtain ⟨hafter, -⟩ := work_of_arrived hjob hr hcancelled hphase
  rw [Call.receive_call, Call.outcomeAt, Response.outcome, hfinal, if_neg Bool.false_ne_true,
    ← exec_concat] at hafter
  have hheard := heardBy_concat_work hjob hr
  rw [hcancelled, Call.heard?_of_arrived _ hphase] at hheard
  refine ⟨_, hafter, hpurpose, rfl, ?_⟩
  rw [outcomes, hheard]
  rfl

/-- A reply that the router takes for a success, and that is a receipt to the caller, is given back
as that receipt, whatever it says. -/
theorem given_back {r : Reply} {x : Receipt} (hverdict : r.verdict = .success)
    (hstatus : r.status = 200) (hreceipt : decode Receipt.decoder r.body = .ok x) :
    ∃ job, ((pair 0).exec (noting r ++ [.work 0])).jobs[0]? = some job ∧
      job.purpose = .note .pair "hello" ∧ job.call.phase = .ended (.ok r) ∧
      (pair 0).outcomes 0 (noting r ++ [.work 0]) = [.ok r] ∧
      job.purpose.conclude (.ok r) = .ok (.receipt x) := by
  obtain ⟨job, hjob, hpurpose, hended, houtcomes⟩ :=
    ended_noting (congrArg Verdict.isRetryable hverdict)
  have hsuccess : r.isSuccess = true := by simp [Reply.isSuccess, hstatus]
  refine ⟨job, hjob, hpurpose, hended, houtcomes, ?_⟩
  rw [hpurpose]
  exact Purpose.conclude_note hsuccess hreceipt

/-- A list of fields: the mark of a referral, and an identifier. -/
def listed : Reply :=
  ⟨200, Utf8.encode "[\"redirect\",\"00000000-0000-0000-0000-000000000000\"]"⟩

/-- A list of fields is no object to the router, but a receipt to the caller. -/
theorem redirect_given_back :
    ∃ job, ((pair 0).exec (noting listed ++ [.work 0])).jobs[0]? = some job ∧
      job.purpose = .note .pair "hello" ∧ job.call.phase = .ended (.ok listed) ∧
      (pair 0).outcomes 0 (noting listed ++ [.work 0]) = [.ok listed] ∧ listed.status = 200 ∧
      job.purpose.conclude (.ok listed) = .ok (.receipt ⟨redirectStatus, .nil⟩) := by
  have hverdict : listed.verdict = .success := by decide +kernel
  have hreceipt : decode Receipt.decoder listed.body = .ok ⟨redirectStatus, .nil⟩ := by
    decide +kernel
  obtain ⟨job, hjob, hpurpose, hended, houtcomes, hanswer⟩ := given_back hverdict rfl hreceipt
  exact ⟨job, hjob, hpurpose, hended, houtcomes, rfl, hanswer⟩

/-- An object with the mark of a referral, and a number that no reader of values takes. -/
def oversized : Reply :=
  ⟨200, Utf8.encode ("\x7b\"status\":\"redirect\"," ++
    "\"event_id\":\"00000000-0000-0000-0000-000000000000\",\"size\":1e999\x7d")⟩

/-- To the router an object is no object either, if one of its members has no value. The caller
passes over that member and reads the mark. -/
theorem redirect_given_back_passing_over :
    ∃ job, ((pair 0).exec (noting oversized ++ [.work 0])).jobs[0]? = some job ∧
      job.purpose = .note .pair "hello" ∧ job.call.phase = .ended (.ok oversized) ∧
      (pair 0).outcomes 0 (noting oversized ++ [.work 0]) = [.ok oversized] ∧
      oversized.status = 200 ∧
      job.purpose.conclude (.ok oversized) = .ok (.receipt ⟨redirectStatus, .nil⟩) := by
  have hverdict : oversized.verdict = .success := by decide +kernel
  have hreceipt : decode Receipt.decoder oversized.body = .ok ⟨redirectStatus, .nil⟩ := by
    decide +kernel
  obtain ⟨job, hjob, hpurpose, hended, houtcomes, hanswer⟩ := given_back hverdict rfl hreceipt
  exact ⟨job, hjob, hpurpose, hended, houtcomes, rfl, hanswer⟩

/-- A receipt with a member more than it has fields. -/
def detailed : Reply :=
  ⟨200, Utf8.encode ("\x7b\"status\":\"accepted\",\"replicas\":[1]," ++
    "\"event_id\":\"00000000-0000-0000-0000-000000000000\"\x7d")⟩

/-- To the router this is an object, and no referral. -/
theorem receipt_status_of_detailed :
    ∃ job, ((pair 0).exec (noting detailed ++ [.work 0])).jobs[0]? = some job ∧
      job.purpose.conclude (.ok detailed) = .ok (.receipt ⟨"accepted", .nil⟩) ∧
      "accepted" ≠ redirectStatus := by
  have hfinal : detailed.verdict = .success := by decide +kernel
  have hreceipt : decode Receipt.decoder detailed.body = .ok ⟨"accepted", .nil⟩ := by
    decide +kernel
  have hobject : detailed.object?.isSome = true := by decide +kernel
  obtain ⟨job, hjob, hpurpose, hended, houtcomes, hanswer⟩ := given_back hfinal rfl hreceipt
  obtain ⟨-, hgiven⟩ := receipt_status (w := pair 0) (.pair (by decide))
  have hgiven := hgiven (noting detailed ++ [.work 0]) 0 job
    ⟨"acme", "hello", none, none, none, none, none⟩ (.ok detailed) ⟨"accepted", .nil⟩
  obtain ⟨r, hlast, -, hstatus, -⟩ := hgiven (Nat.zero_le 0) hjob hpurpose hended hanswer
  rw [houtcomes] at hlast
  obtain rfl : detailed = r := Except.ok.inj (Option.some.inj hlast)
  have hs : detailed.status = 200 := rfl
  exact ⟨job, hjob, hanswer, hstatus hs (Option.isSome_iff_ne_none.mp hobject)⟩

end World

end ClusterClient
